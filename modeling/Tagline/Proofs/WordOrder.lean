import Tagline.Proofs.LineForms

/-!
# The order of words

A lexicon lists its words in some order, and the first word that stands at a cursor as a token is
taken. But only one word can stand there: tokens end where a blank or a parenthesis comes, and solid
words hold neither. So only the words count, not their order:

    (∀ w, w ∈ vs ↔ w ∈ ws) → c.eatAny? vs = c.eatAny? ws           (eatAny?_eq_of_mem_iff)

Of the words that start the text, the one that is taken is the longest (isPrefix_of_eatAny?). A lexicon
with the same words in another order is regular as well (Reorders.regular), and reads every name, every
block word and every line in the same way, so that it gives the same scans (scan_in_any_order).
-/

namespace Tagline

/-! ## Definitions -/

/-- The second lexicon has the words of the first in any order. -/
structure Lexicon.Reorders (lexicon other : Lexicon) : Prop where
  controls : other.controls.Perm lexicon.controls
  definitions : other.definitions.Perm lexicon.definitions
  openers : other.openers.Perm lexicon.openers
  operators : other.operators.Perm lexicon.operators
  closer : other.closer = lexicon.closer
  commentStart : other.commentStart = lexicon.commentStart
  commentEnd : other.commentEnd = lexicon.commentEnd

/-! ## Tokens at a cursor -/

namespace Cursor

section
variable {c d e : Cursor} {ws : List Text} (hsolid : ∀ w ∈ ws, Text.isSolid w = true)

include hsolid

/-- One word at most stands at a cursor as a token. -/
theorem eq_of_eat? {v w : Text} (hv : v ∈ ws) (hw : w ∈ ws) (hd : c.eat? v = some d)
    (he : c.eat? w = some e) : v = w := by
  obtain ⟨hrest, hend, -⟩ := eat?_eq_some.1 hd
  obtain ⟨hrest', hend', -⟩ := eat?_eq_some.1 he
  exact Text.eq_of_dropToken? (hsolid v hv) (hsolid w hw) (Text.dropToken?_eq_some.2 ⟨hrest, hend⟩)
    (Text.dropToken?_eq_some.2 ⟨hrest', hend'⟩)

/-- **The order of the words does not count.** -/
theorem eatAny?_eq_of_mem_iff {vs : List Text} (hmem : ∀ w, w ∈ vs ↔ w ∈ ws) (c : Cursor) :
    c.eatAny? vs = c.eatAny? ws := by
  cases hfound : c.eatAny? ws with
  | none =>
    rw [eatAny?_eq_none_iff] at hfound ⊢
    intro w hw
    exact hfound w ((hmem w).1 hw)
  | some found =>
    obtain ⟨w, d⟩ := found
    obtain ⟨hw, heat⟩ := eatAny?_mem hfound
    obtain ⟨hrest, hend, hoffset⟩ := eat?_eq_some.1 heat
    have hsolid' : ∀ v ∈ vs, Text.isSolid v = true := fun v hv => hsolid v ((hmem v).1 hv)
    rw [eatAny?_of_token hsolid' ((hmem w).2 hw) hrest hend, ← hoffset]

/-- **The longest word is taken**: every word that starts the text starts the word that is taken. -/
theorem isPrefix_of_eatAny? {v w : Text} (hw : c.eatAny? ws = some (w, d)) (hv : v ∈ ws)
    (hstart : v <+: c.rest) : v <+: w := by
  obtain ⟨-, heat⟩ := eatAny?_mem hw
  obtain ⟨hrest, hend, -⟩ := eat?_eq_some.1 heat
  obtain ⟨t, ht⟩ := hstart
  rw [hrest] at ht
  rcases List.append_eq_append_iff.1 ht with ⟨a, rfl, -⟩ | ⟨a, rfl, hd⟩
  · exact List.prefix_append v a
  · -- a longer word would go on where the token ends
    rw [hd] at hend
    have hnil : a = [] := Text.eq_nil_of_endsToken (Text.isSolid_append.1 (hsolid _ hv)).2 hend
    simp only [hnil, List.append_nil, List.prefix_rfl]

end

end Cursor

/-! ## A lexicon in another order -/

namespace Lexicon.Reorders

variable {lexicon other : Lexicon} (hother : lexicon.Reorders other)

include hother

theorem mem_keywords {w : Text} : w ∈ other.keywords ↔ w ∈ lexicon.keywords := by
  have hdefinitions := (hother.definitions.map Prod.fst).mem_iff (a := w)
  simp only [keywords, List.mem_append, hother.controls.mem_iff, hdefinitions, hother.openers.mem_iff,
    hother.closer]

theorem mem_symbols {w : Text} : w ∈ other.symbols ↔ w ∈ lexicon.symbols := by
  simp only [symbols, List.mem_cons, hother.commentStart, hother.commentEnd, hother.operators.mem_iff]

theorem marker?_eq (line : Text) : other.marker? line = lexicon.marker? line := by
  unfold marker?
  rw [hother.commentStart, hother.commentEnd]

variable (h : lexicon.Regular)

include h

/-- The words stay regular. -/
theorem regular : other.Regular where
  keyword_ne_nil w hw := h.keyword_ne_nil w (hother.mem_keywords.1 hw)
  isWord_keyword w hw := h.isWord_keyword w (hother.mem_keywords.1 hw)
  isSolid_symbol w hw := h.isSolid_symbol w (hother.mem_symbols.1 hw)
  symbol_head w hw := h.symbol_head w (hother.mem_symbols.1 hw)
  definition_kind p hp q hq :=
    h.definition_kind p (hother.definitions.mem_iff.1 hp) q (hother.definitions.mem_iff.1 hq)
  control_not_definition w hw hmem :=
    h.control_not_definition w (hother.controls.mem_iff.1 hw)
      ((hother.definitions.map Prod.fst).mem_iff.1 hmem)
  closer_only_closes := by
    have honly := h.closer_only_closes
    simp only [List.mem_append, not_or] at honly ⊢
    rw [hother.closer, hother.controls.mem_iff, (hother.definitions.map Prod.fst).mem_iff,
      hother.openers.mem_iff]
    exact honly

/-! ## Names -/

theorem readCallable_eq (kind : Kind) (c : Cursor) :
    kind.readCallable other.operators c = kind.readCallable lexicon.operators c := by
  have heat : ∀ d : Cursor, d.eatAny? other.operators = d.eatAny? lexicon.operators :=
    Cursor.eatAny?_eq_of_mem_iff (isSolid_operator h) fun w => hother.operators.mem_iff
  -- along the receivers
  fun_induction Kind.readCallable kind lexicon.operators c with
  | case1 kind c start operator behind ho =>
    exact Kind.readCallable_of_operator ((heat _).trans ho)
  | case2 kind c start ho behind hdot ih =>
    rw [Kind.readCallable_of_receiver ((heat _).trans ho) hdot]
    exact ih
  | case3 kind c start ho word behind hdot mark hmark =>
    have hsome : (c.skipBlank.skipWhile Text.isWord).peek?.filter isNameMark = some mark := hmark
    rw [Kind.readCallable_of_word ((heat _).trans ho) hdot]
    simp only [hsome]
    rfl
  | case4 kind c start ho word behind hdot hmark =>
    have hnone : (c.skipBlank.skipWhile Text.isWord).peek?.filter isNameMark = none := hmark
    rw [Kind.readCallable_of_word ((heat _).trans ho) hdot]
    simp only [hnone, Option.toList_none, List.append_nil]
    rfl

theorem readName_eq (kind : Kind) (c : Cursor) :
    kind.readName other.operators c = kind.readName lexicon.operators c := by
  unfold Kind.readName
  split
  · exact hother.readCallable_eq h kind c
  · rfl

/-! ## Lines -/

theorem definition?_eq (c : Cursor) : other.definition? c = lexicon.definition? c := by
  cases hfound : lexicon.definition? c with
  | none =>
    unfold definition? at hfound ⊢
    rw [List.findSome?_eq_none_iff] at hfound ⊢
    intro p hp
    exact hfound p (hother.definitions.mem_iff.1 hp)
  | some found =>
    obtain ⟨kind, d⟩ := found
    obtain ⟨word, hmem, heat⟩ := mem_of_definition? hfound
    obtain ⟨hrest, hend, hoffset⟩ := Cursor.eat?_eq_some.1 heat
    rw [definition?_of_token (hother.regular h) (hother.definitions.mem_iff.2 hmem) hrest hend,
      ← hoffset]

theorem readHeading_eq (c : Cursor) : other.readHeading c = lexicon.readHeading c := by
  have hname := hother.readName_eq h
  have hdefinition := hother.definition?_eq h c
  unfold definition? at hdefinition
  unfold readHeading
  simp only [hdefinition, hname]

theorem blockStep_eq (c : Cursor) : other.blockStep c = lexicon.blockStep c := by
  have heat : c.eatAny? other.openers = c.eatAny? lexicon.openers :=
    Cursor.eatAny?_eq_of_mem_iff (fun w hw => isSolid_keyword h (opener_mem_keywords hw))
      (fun w => hother.openers.mem_iff) c
  unfold blockStep
  rw [heat, hother.closer]

theorem blockChanges_eq (c : Cursor) : other.blockChanges c = lexicon.blockChanges c := by
  fun_induction lexicon.blockChanges c with
  | case1 c hend =>
    rw [← hother.blockStep_eq h] at hend
    rw [blockChanges]
    split
    · rfl
    · next hstep => simp [hend] at hstep
  | case2 c change d hstep behind ih =>
    rw [← hother.blockStep_eq h] at hstep
    rw [blockChanges]
    split
    · next hend => simp [hstep] at hend
    · next change' d' hstep' =>
      rw [hstep] at hstep'
      simp only [Option.some.injEq, Prod.mk.injEq] at hstep'
      obtain ⟨rfl, rfl⟩ := hstep'
      rw [ih]

/-- **A line is read in the same way.** -/
theorem read_eq (line : Text) : CodeLine.read other line = CodeLine.read lexicon line := by
  have heat : (Cursor.ofLine line).skipBlank.eatAny? other.controls =
      (Cursor.ofLine line).skipBlank.eatAny? lexicon.controls :=
    Cursor.eatAny?_eq_of_mem_iff (isSolid_control h) (fun w => hother.controls.mem_iff) _
  unfold CodeLine.read
  simp only [heat, hother.readHeading_eq h, hother.blockChanges_eq h]

theorem scanLine_eq (config : Config) (state : ScanState) (line : Text) :
    Scanner.scanLine ⟨config, other⟩ state line = Scanner.scanLine ⟨config, lexicon⟩ state line := by
  unfold Scanner.scanLine
  simp only [hother.marker?_eq]
  cases lexicon.marker? line with
  | some marker => cases marker <;> rfl
  | none =>
    cases state.mode with
    | comment => rfl
    | code =>
      unfold Scanner.scanCode
      simp only [hother.read_eq h]
      rfl

theorem results_eq (config : Config) (state : ScanState) (lines : List Text) :
    Scanner.results ⟨config, other⟩ state lines = Scanner.results ⟨config, lexicon⟩ state lines := by
  induction lines generalizing state with
  | nil => rfl
  | cons line lines ih => simp only [Scanner.results, hother.scanLine_eq h, ih]

end Lexicon.Reorders

/-! ## The words at the start of a line -/

section
variable {lexicon : Lexicon} (h : lexicon.Regular)

include h

/-- Behind a control word no definition word is taken. -/
theorem Lexicon.definition_not_behind_control {c d : Cursor} {word : Text}
    (hd : c.eatAny? lexicon.controls = some (word, d)) :
    ∀ p ∈ lexicon.definitions, d.eat? p.1 = none := by
  obtain ⟨-, heat⟩ := Cursor.eatAny?_mem hd
  obtain ⟨-, hend, -⟩ := Cursor.eat?_eq_some.1 heat
  intro p hp
  rw [Cursor.eat?_eq_none_iff]
  exact dropToken?_eq_none_of_head h (definition_mem_keywords (List.mem_map_of_mem hp))
    (Text.not_isWord_of_endsToken hend)

/-- A line that starts with a control word opens a scope without a name for it, and gives no tag. -/
theorem Scanner.scanLine_of_control (config : Config) (state : ScanState) {indent word tail : Text}
    (hindent : ∀ a ∈ indent, Text.isBlank a = true) (hword : word ∈ lexicon.controls)
    (htail : Text.endsToken tail = true) :
    (Scanner.scanLine ⟨config, lexicon⟩ state (indent ++ (word ++ tail))).tag = none ∧
      (Scanner.scanLine ⟨config, lexicon⟩ state (indent ++ (word ++ tail))).state.scopes =
        match state.mode with
        | .code => ScopeStack.afterAll (.anonymous :: state.scopes) (lexicon.blockWords tail)
        | .comment => state.scopes := by
  have hkey := Lexicon.control_mem_keywords hword
  have hmarker : lexicon.marker? (indent ++ (word ++ tail)) = none :=
    Lexicon.marker?_of_keyword h hindent hkey
  have hcontrol := Cursor.eatAny?_of_token (Lexicon.isSolid_control h) hword
    (congrArg Cursor.rest (Cursor.skipBlank_of_keyword h (t := tail) hindent hkey)) htail
  have hread := CodeLine.read_of_control h hcontrol
  obtain ⟨number, scopes, mode⟩ := state
  cases mode with
  | comment => simp [Scanner.scanLine, hmarker]
  | code =>
    obtain ⟨hstate, htag⟩ :=
      @Scanner.scanLine_of_read ⟨config, lexicon⟩ _ number scopes _ hmarker hread
    rw [htag, hstate]
    exact ⟨rfl, rfl⟩

end

/-! ## Top theorem -/

/-- **The order of the words does not matter.** Take words that hold neither a blank nor a
parenthesis. Those that stand at a cursor as tokens are equal, so whichever order the words are tried
in, the same word is taken and the cursor moves to the same place; and of the words that start the
text, it is the longest. So a lexicon that lists the words of Julia in another order gives the same
result for every line in every state, and for every run. On a line one leading word is taken at most:
behind a control word there is no definition word. A line that starts with a control word, behind its
indentation, opens one scope without a name for it and gives no tag; inside a comment it does nothing
to the scopes. -/
theorem scan_in_any_order (config : Config) {lexicon : Lexicon}
    (hother : Lexicon.julia.Reorders lexicon) :
    (∀ (ws : List Text) (c : Cursor), (∀ w ∈ ws, Text.isSolid w = true) →
        (∀ v ∈ ws, ∀ w ∈ ws, (c.eat? v).isSome = true → (c.eat? w).isSome = true → v = w) ∧
          (∀ vs : List Text, vs.Perm ws → c.eatAny? vs = c.eatAny? ws) ∧
          ∀ w d, c.eatAny? ws = some (w, d) → ∀ v ∈ ws, v <+: c.rest → v <+: w) ∧
      (∀ w ∈ Lexicon.julia.operators, Text.isSolid w = true) ∧
      (∀ state line, Scanner.scanLine ⟨config, lexicon⟩ state line =
        Scanner.scanLine { config } state line) ∧
      (∀ state lines, Scanner.results ⟨config, lexicon⟩ state lines =
        Scanner.results { config } state lines) ∧
      (∀ (line word : Text) (behind : Cursor),
        (Cursor.ofLine line).skipBlank.eatAny? Lexicon.julia.controls = some (word, behind) →
          ∀ p ∈ Lexicon.julia.definitions, behind.eat? p.1 = none) ∧
      ∀ (state : ScanState) (indent word tail : Text), (∀ a ∈ indent, Text.isBlank a = true) →
        word ∈ Lexicon.julia.controls → Text.endsToken tail = true →
          let result := Scanner.scanLine { config } state (indent ++ (word ++ tail))
          result.tag = none ∧
            result.state.scopes =
              match state.mode with
              | .code =>
                ScopeStack.afterAll (.anonymous :: state.scopes)
                  (Lexicon.julia.blockChanges ⟨Text.byteSize (indent ++ word), tail⟩).1
              | .comment => state.scopes := by
  have h := Lexicon.julia_regular
  refine ⟨?_, Lexicon.isSolid_operator h, hother.scanLine_eq h config, hother.results_eq h config,
    ?_, ?_⟩
  · intro ws c hsolid
    refine ⟨?_, ?_, ?_⟩
    · intro v hv w hw hd he
      obtain ⟨d, hd⟩ := Option.isSome_iff_exists.1 hd
      obtain ⟨e, he⟩ := Option.isSome_iff_exists.1 he
      exact Cursor.eq_of_eat? hsolid hv hw hd he
    · intro vs hperm
      exact Cursor.eatAny?_eq_of_mem_iff hsolid (fun w => hperm.mem_iff) c
    · intro w d hw v hv hstart
      exact Cursor.isPrefix_of_eatAny? hsolid hw hv hstart
  · intro line word behind hbehind
    exact Lexicon.definition_not_behind_control h hbehind
  · intro state indent word tail hindent hword htail
    rw [Lexicon.blockChanges_fst h]
    exact Scanner.scanLine_of_control h config state hindent hword htail

/-- The words of Julia from back to front. The name of the function is an operator that two shorter
ones start, and a block inside the loop is opened by a word that starts a line as well. -/
theorem scan_in_any_order_reversed :
    let j := Lexicon.julia
    let reversed : Lexicon :=
      { j with
        controls := j.controls.reverse
        definitions := j.definitions.reverse
        openers := j.openers.reverse
        operators := j.operators.reverse
        openers_ne_nil := by decide }
    let line := "function Base.<=>(a, b) begin".toList
    let t : Tag := ⟨"<=>".toList, .singletonMethod, ⟨1, 15⟩, none⟩
    let name : Cursor := ⟨14, "<=>(a, b) begin".toList⟩
    let loop := "  ".toList ++ ("while".toList ++ "(x) begin".toList)
    j.Reorders reversed ∧ j.operators ≠ reversed.operators ∧
      (Scanner.scanLine ⟨{}, reversed⟩ {} line).tag = some t ∧
      name.eatAny? reversed.operators = some ("<=>".toList, ⟨17, "(a, b) begin".toList⟩) ∧
      "<=".toList <+: "<=>".toList ∧
      (Scanner.scanLine {} {} loop).tag = none ∧
      (Scanner.scanLine {} {} loop).state.scopes = [.anonymous, .anonymous] := by
  intro j reversed line t name loop
  have hother : j.Reorders reversed :=
    ⟨List.reverse_perm _, List.reverse_perm _, List.reverse_perm _, List.reverse_perm _, rfl, rfl, rfl⟩
  obtain ⟨htokens, hsolid, hline, -, -, hcontrol⟩ := scan_in_any_order {} hother
  obtain ⟨-, hperm, hlongest⟩ := htokens j.operators name hsolid
  have hfound : name.eatAny? j.operators = some ("<=>".toList, ⟨17, "(a, b) begin".toList⟩) := by
    decide +kernel
  have hstart : "<=".toList <+: name.rest := ⟨">(a, b) begin".toList, by decide +kernel⟩
  have hblank : "  ".toList.all Text.isBlank = true := by decide +kernel
  obtain ⟨htag, hscopes⟩ := hcontrol {} "  ".toList "while".toList "(x) begin".toList
    (List.all_eq_true.1 hblank) (by decide) (by decide)
  refine ⟨hother, by decide, ?_, ?_, ?_, htag, ?_⟩
  · rw [hline]
    decide +kernel
  · rw [hperm _ hother.operators, hfound]
  · exact hlongest _ _ hfound _ (by decide) hstart
  · rw [hscopes]
    decide +kernel

end Tagline
