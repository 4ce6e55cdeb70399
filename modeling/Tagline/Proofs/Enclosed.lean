import Tagline.Proofs.Forest
import Tagline.Proofs.Nesting
import Tagline.Proofs.Walks

/-!
# Lines inside other scopes

What some lines do does not depend on the scopes around them, as long as they close none of these.
The scopes around them stay in place, at the bottom of the stack, and the tags are the same but for
their paths, which start with the path around them:

    stateAfter (state.inside base) lines = (stateAfter state lines).inside base
    tagsFrom (state.inside base) lines = (tagsFrom state lines).map (Tag.nestedIn base.path)
                                                                   (run_inside)

A walk that meets the closer while no scope is open leaves a mark like any other, and the mark closes
nothing. So the marks of a line do not depend on the stack (walks_iff), and that no scope of the
surroundings is closed is said of the marks alone (covers).
-/

namespace Tagline

open ScopeStack (joinPaths)

/-! ## Definitions -/

def TagScope.ofPath? (path : Text) : Option TagScope :=
  if path = [] then none else some (.ofPath path)

/-- The tag of the same definition inside scopes with a path. -/
def Tag.nestedIn (outer : Text) (t : Tag) : Tag :=
  { t with scope := TagScope.ofPath? (joinPaths outer (t.scopePath?.getD [])) }

/-- The tag of the same definition so many lines below. -/
def Tag.lowered (n : Nat) (t : Tag) : Tag := t.onLine (t.line + n)

/-- The state with other scopes open around those that are open. -/
def ScanState.inside (base : ScopeStack) (state : ScanState) : ScanState :=
  { state with scopes := state.scopes ++ base }

/-! ## Scopes of tags -/

namespace ScopeStack

theorem path?_tagScope? (stack : ScopeStack) :
    (stack.tagScope?.map TagScope.path).getD [] = stack.path := by
  unfold tagScope?
  split
  · next hnil => simp [hnil]
  · rfl

theorem tagScope?_append (inner outer : ScopeStack) :
    tagScope? (inner ++ outer) =
      TagScope.ofPath? (joinPaths outer.path ((inner.tagScope?.map TagScope.path).getD [])) := by
  rw [path?_tagScope?, ← path_append]
  rfl

end ScopeStack

theorem CodeLine.covers_lead (code : CodeLine) (stack : ScopeStack) :
    stack.covers code.lead = true := by
  unfold lead
  split
  · cases stack <;> rfl
  · cases stack <;> rfl

namespace Scanner

/-! ## One line -/

theorem tag?_inside (s : Scanner) (number : Nat) (line : Text) (inner outer : ScopeStack)
    (heading : Heading) :
    s.tag? number line (inner ++ outer) heading =
      (s.tag? number line inner heading).map (Tag.nestedIn outer.path) := by
  cases heading with
  | unnamed kind => rfl
  | named kind name offset =>
    simp only [tag?, ScopeStack.tagScope?_append]
    split
    · rfl
    · rfl

/-- **A line inside other scopes** leaves them in place, and its tag is nested in them. -/
theorem scanLine_inside {s : Scanner} {state : ScanState} {line : Text}
    (h : state.scopes.covers (s.lineChanges state.mode line) = true) (base : ScopeStack) :
    (s.scanLine (state.inside base) line).state = (s.scanLine state line).state.inside base ∧
      (s.scanLine (state.inside base) line).tag =
        (s.scanLine state line).tag.map (Tag.nestedIn base.path) := by
  obtain ⟨number, scopes, mode⟩ := state
  cases hm : s.lexicon.marker? line with
  | some marker => cases marker <;> simp [scanLine, hm, ScanState.inside]
  | none =>
    cases mode with
    | comment => simp [scanLine, hm, ScanState.inside]
    | code =>
      have hcov : scopes.covers (CodeLine.read s.lexicon line).changes = true := by
        simpa only [lineChanges, hm] using h
      have hlead := (CodeLine.read s.lexicon line).covers_lead scopes
      obtain ⟨hstate, htag⟩ := @scanLine_of_read s line number scopes _ hm rfl
      obtain ⟨hstate', htag'⟩ := @scanLine_of_read s line number (scopes ++ base) _ hm rfl
      rw [ScopeStack.afterAll_append_of_covers hcov] at hstate'
      rw [ScopeStack.afterAll_append_of_covers hlead] at htag'
      refine ⟨?_, ?_⟩
      · show (s.scanLine ⟨number, scopes ++ base, .code⟩ line).state = _
        rw [hstate', hstate]
        rfl
      · show (s.scanLine ⟨number, scopes ++ base, .code⟩ line).tag = _
        rw [htag', htag]
        cases (CodeLine.read s.lexicon line).heading with
        | none => rfl
        | some heading => exact tag?_inside s _ line _ base heading

/-! ## Runs -/

/-- **Lines inside other scopes** leave them in place, and their tags are nested in them. -/
theorem run_inside {s : Scanner} {state : ScanState} {lines : List Text}
    (h : state.scopes.covers (s.changes state lines) = true) (base : ScopeStack) :
    s.stateAfter (state.inside base) lines = (s.stateAfter state lines).inside base ∧
      s.tagsFrom (state.inside base) lines =
        (s.tagsFrom state lines).map (Tag.nestedIn base.path) := by
  induction lines generalizing state with
  | nil => exact ⟨rfl, rfl⟩
  | cons line lines ih =>
    rw [changes, ScopeStack.covers_append, Bool.and_eq_true, ← scopes_scanLine] at h
    obtain ⟨hline, hlines⟩ := h
    obtain ⟨hstate, htag⟩ := scanLine_inside hline base
    obtain ⟨hbehind, htags⟩ := ih hlines
    refine ⟨?_, ?_⟩
    · rw [stateAfter_cons, stateAfter_cons, hstate, hbehind]
    · rw [tagsFrom_cons, tagsFrom_cons, hstate, htag, htags, List.map_append]
      cases (s.scanLine state line).tag <;> rfl

/-- **Lines further below** do the same, and their tags stand further below. -/
theorem tagsFrom_lowered (s : Scanner) (state : ScanState) (n : Nat) (lines : List Text) :
    s.tagsFrom { state with line := state.line + n } lines =
      (s.tagsFrom state lines).map (Tag.lowered n) := by
  induction lines generalizing state with
  | nil => rfl
  | cons line lines ih =>
    obtain ⟨hstate, htag⟩ := scanLine_renumbered s state (state.line + n) line
    have hnumber : state.line + n + 1 = (s.scanLine state line).state.line + n := by
      rw [line_scanLine]
      omega
    rw [tagsFrom_cons, tagsFrom_cons, List.map_append, hstate, htag, hnumber, ih]
    cases ht : (s.scanLine state line).tag with
    | none => rfl
    | some t =>
      have hline : (s.scanLine state line).state.line = t.line := by
        rw [line_scanLine, line_of_scanLine_tag ht]
      rw [hline]
      rfl

/-- Lines inside other scopes and further below. -/
theorem tagsFrom_inside_lowered {s : Scanner} {number : Nat} {lines : List Text}
    (h : ScopeStack.covers [] (s.changes ⟨number, [], .code⟩ lines) = true) (base : ScopeStack)
    (n : Nat) :
    s.tagsFrom ⟨number + n, base, .code⟩ lines =
      (s.tagsFrom ⟨number, [], .code⟩ lines).map fun t => (t.nestedIn base.path).lowered n := by
  have hinside : s.tagsFrom ⟨number, base, .code⟩ lines =
      (s.tagsFrom ⟨number, [], .code⟩ lines).map (Tag.nestedIn base.path) :=
    (@run_inside s ⟨number, [], .code⟩ lines h base).2
  calc s.tagsFrom ⟨number + n, base, .code⟩ lines
      = (s.tagsFrom ⟨number, base, .code⟩ lines).map (Tag.lowered n) :=
        tagsFrom_lowered s ⟨number, base, .code⟩ n lines
    _ = ((s.tagsFrom ⟨number, [], .code⟩ lines).map (Tag.nestedIn base.path)).map (Tag.lowered n) :=
        congrArg (List.map (Tag.lowered n)) hinside
    _ = _ := List.map_map

/-! ## Wrapped lines -/

/-- What closes a block gives no tag, whether it is read as code or not. -/
theorem scanLine_closing_tag {s : Scanner} (h : s.lexicon.Regular) (state : ScanState)
    (close : ClosingLine) : (s.scanLine state (close.text s.lexicon)).tag = none := by
  cases ht : (s.scanLine state (close.text s.lexicon)).tag with
  | none => rfl
  | some t =>
    obtain ⟨-, -, kind, name, offset, hheading, -⟩ := scanLine_tag_eq_some ht
    rw [close.read_text h] at hheading
    simp at hheading

theorem tagsFrom_append_closing {s : Scanner} (h : s.lexicon.Regular) (state : ScanState)
    (lines : List Text) (close : ClosingLine) :
    s.tagsFrom state (lines ++ [close.text s.lexicon]) = s.tagsFrom state lines := by
  rw [tagsFrom_append, tagsFrom_cons, scanLine_closing_tag h]
  exact List.append_nil _

/-- **Lines in a block of their own** give the tag of the definition that starts the block, and then
their tags nested in it. -/
theorem tagsFrom_wrapped {lexicon : Lexicon} (h : lexicon.Regular) (config : Config) {number : Nat}
    {lines : List Text}
    (hcov : ScopeStack.covers [] (changes ⟨config, lexicon⟩ ⟨number, [], .code⟩ lines) = true)
    (base : ScopeStack) (head : DefinitionLine lexicon) (close : ClosingLine) :
    tagsFrom ⟨config, lexicon⟩ ⟨number, base, .code⟩
        (head.text :: (lines ++ [close.text lexicon])) =
      ([⟨head.name, head.kind, ⟨number + 1, head.before.length + 1⟩, base.tagScope?⟩].filter
          fun t => config.isEnabled t.kind) ++
        (tagsFrom ⟨config, lexicon⟩ ⟨number, [], .code⟩ lines).map fun t =>
          (t.nestedIn (joinPaths base.path head.name)).lowered 1 := by
  obtain ⟨hstate, htag⟩ := scanLine_opening h config number base (.definition head)
  rw [Opening.text] at hstate htag
  have hpath : ScopeStack.path (.named head.name :: base) = joinPaths base.path head.name := by
    rw [ScopeStack.path_cons_named head.name_ne_nil, joinPaths, if_neg head.name_ne_nil]
    rfl
  have hbody := tagsFrom_inside_lowered hcov (.named head.name :: base) 1
  rw [hpath] at hbody
  have hclose := tagsFrom_append_closing (s := ⟨config, lexicon⟩) h
    ⟨number + 1, .named head.name :: base, .code⟩ lines close
  rw [tagsFrom_cons, hstate, htag, Opening.scope, hclose, hbody, Opening.tag?,
    ← ScopeStack.tagScope?_eq_ofNames?, Option.toList_filter]
  rfl

/-! ## Top theorem -/

/-- **What lines do does not depend on what is open around them.** Lines that close no scope but their
own leave those around them in place, below the ones they open themselves. Their tags have the names,
kinds and positions that they have where nothing is open around them, and their paths start with the
path around them. Between the lines `module W` and `end` they give the tag of the module, and then
their tags one line below and nested in it. -/
theorem scan_enclosed (config : Config) (number : Nat) {lines : List Text}
    (h : ScopeStack.covers [] (changes { config } ⟨number, [], .code⟩ lines) = true)
    (base : ScopeStack) :
    let s : Scanner := { config }
    let alone : ScanState := ⟨number, [], .code⟩
    let enclosed : ScanState := ⟨number, base, .code⟩
    s.stateAfter enclosed lines = (s.stateAfter alone lines).inside base ∧
      s.tagsFrom enclosed lines = (s.tagsFrom alone lines).map (Tag.nestedIn base.path) ∧
      ∀ name, name ≠ [] → (∀ a ∈ name, Text.isWord a = true) →
        s.tagsFrom enclosed (("module ".toList ++ name) :: (lines ++ ["end".toList])) =
          ([⟨name, .moduleDef, ⟨number + 1, 8⟩, base.tagScope?⟩].filter
              fun t => config.isEnabled t.kind) ++
            (s.tagsFrom alone lines).map fun t =>
              (t.nestedIn (joinPaths base.path name)).lowered 1 := by
  intro s alone enclosed
  obtain ⟨hstate, htags⟩ := @run_inside s alone lines h base
  refine ⟨hstate, htags, ?_⟩
  intro name hne hname
  have hblank : ∀ a ∈ [' '], Text.isBlank a = true := by
    rw [List.forall_mem_singleton]
    decide
  let head : DefinitionLine .julia := ⟨[], "module".toList, .moduleDef, [' '], name, [], by simp,
    by decide, by simp, hblank, hne, hname, by simp, rfl⟩
  have hhead : "module ".toList ++ name = head.text := (List.append_nil _).symm
  rw [hhead]
  exact tagsFrom_wrapped Lexicon.julia_regular config h base head ⟨[], by simp⟩

/-- Lines with an open definition, a block without a name, and a comment that looks like the end of
all of them, inside a definition and a block without a name. -/
theorem scan_enclosed_unfinished :
    let lines := ["function f(x) do", "type T", "end", "end", "if x", "=begin", "end end end", "=end",
      "macro σ"].map String.toList
    let base : ScopeStack := [.anonymous, .named "A".toList]
    let wrapped := ("module ".toList ++ "W".toList) :: (lines ++ ["end".toList])
    ScopeStack.covers [] (changes {} ⟨4, [], .code⟩ lines) = true ∧ "W".toList ≠ [] ∧
      (∀ a ∈ "W".toList, Text.isWord a = true) ∧
      (stateAfter {} ⟨4, base, .code⟩ lines).scopes =
        [.named "σ".toList, .anonymous, .named "f".toList, .anonymous, .named "A".toList] ∧
      (tagsFrom {} ⟨4, base, .code⟩ lines).map Tag.scopePath? =
        ["A".toList, "A.f".toList, "A.f".toList].map some ∧
      tagsFrom {} ⟨4, base, .code⟩ wrapped =
        [⟨"W".toList, .moduleDef, ⟨5, 8⟩, some (.ofPath "A".toList)⟩,
          ⟨"f".toList, .function, ⟨6, 10⟩, some (.ofPath "A.W".toList)⟩,
          ⟨"T".toList, .typeDef, ⟨7, 6⟩, some (.ofPath "A.W.f".toList)⟩,
          ⟨"σ".toList, .macroDef, ⟨14, 7⟩, some (.ofPath "A.W.f".toList)⟩] := by
  intro lines base wrapped
  have hcov : ScopeStack.covers [] (changes {} ⟨4, [], .code⟩ lines) = true := by decide +kernel
  have hall : "W".toList.all Text.isWord = true := by decide +kernel
  have hname : ∀ a ∈ "W".toList, Text.isWord a = true := List.all_eq_true.1 hall
  obtain ⟨hstate, htags, hwrapped⟩ := scan_enclosed {} 4 hcov base
  refine ⟨hcov, by decide, hname, ?_, ?_, ?_⟩
  · rw [hstate]
    decide +kernel
  · rw [htags]
    decide +kernel
  · rw [hwrapped "W".toList (by decide) hname]
    decide +kernel

end Scanner

end Tagline
