import Tagline.Proofs.Forest
import Tagline.Proofs.NameGrammar

/-!
# Definitions without a name

A class that `<<` shows, and a function with its parameters right behind its word, have no name. Such a
line opens no scope, but the line that ends its block closes one all the same. So the whole block
closes the innermost of the scopes around it

    stateAfter ⟨number, scopes, .code⟩ (line.text :: (f.lines ++ [close.text])) =
      ⟨number + f.lines.length + 2, scopes.tail, .code⟩            (stateAfter_nameless_block)

and leaves the stack as it was only where no scope is open.
-/

namespace Tagline

/-! ## Lines -/

/-- What shows that a definition of the kind has no name: `<<` behind the blanks for a class, and a
parenthesis for a function. -/
def Kind.IsNameless (kind : Kind) (gap rest : Text) : Prop :=
  (kind = .classDef ∧ gap ≠ [] ∧ "<<".toList <+: rest) ∨
    (kind = .function ∧ rest.head? = some '(')

/-- A line that starts a definition without a name. -/
structure NamelessLine (lexicon : Lexicon) where
  indent : Text
  word : Text
  kind : Kind
  gap : Text
  rest : Text
  isBlank_indent : ∀ a ∈ indent, Text.isBlank a = true
  definition : (word, kind) ∈ lexicon.definitions
  isBlank_gap : ∀ a ∈ gap, Text.isBlank a = true
  nameless : kind.IsNameless gap rest
  blockWords_rest : lexicon.blockWords rest = []

namespace NamelessLine

variable {lexicon : Lexicon} (line : NamelessLine lexicon)

def text : Text := line.indent ++ (line.word ++ (line.gap ++ line.rest))

/-- The first character behind the blanks is a sign, and no part of a name. -/
theorem exists_rest_eq_cons : ∃ a t, line.rest = a :: t ∧ (a = '<' ∨ a = '(') := by
  rcases line.nameless with ⟨-, -, t, ht⟩ | ⟨-, hhead⟩
  · exact ⟨'<', '<' :: t, ht.symm, Or.inl rfl⟩
  · obtain ⟨t, ht⟩ := List.head?_eq_some_iff.1 hhead
    exact ⟨'(', t, ht, Or.inr rfl⟩

theorem isRun_gap : Text.IsRun Text.isBlank line.gap line.rest where
  inside := line.isBlank_gap
  outside := by
    obtain ⟨a, t, hrest, ha⟩ := line.exists_rest_eq_cons
    intro b hb
    rw [hrest, List.head?_cons, Option.mem_some_iff] at hb
    subst hb
    rcases ha with rfl | rfl
    · decide
    · decide

/-- The word of the definition is a token. -/
theorem endsToken_gap : Text.endsToken (line.gap ++ line.rest) = true := by
  cases hgap : line.gap with
  | cons a gap =>
    have ha := line.isBlank_gap a (by simp [hgap])
    simp [Text.endsToken, ha]
  | nil =>
    rcases line.nameless with ⟨-, hne, -⟩ | ⟨-, hhead⟩
    · exact absurd hgap hne
    · obtain ⟨t, ht⟩ := List.head?_eq_some_iff.1 hhead
      rw [ht]
      rfl

section
variable (h : lexicon.Regular) (hdot : ∀ w ∈ lexicon.operators, w.head? ≠ some '.')

include h

/-- No operator starts with a parenthesis. -/
theorem dropToken?_operator_paren {w : Text} (hw : w ∈ lexicon.operators) (t : Text) :
    Text.dropToken? w ('(' :: t) = none := by
  cases hr : Text.dropToken? w ('(' :: t) with
  | none => rfl
  | some r =>
    obtain ⟨hsplit, -⟩ := Text.dropToken?_eq_some.1 hr
    have hhead := h.symbol_head w (by simp [Lexicon.symbols, hw])
    cases w with
    | nil => simp at hhead
    | cons a w =>
      have hsolid := Lexicon.isSolid_operator h _ hw
      rw [List.cons_append, List.cons.injEq] at hsplit
      exact absurd hsplit.1.symm (Text.isSolid_cons.1 hsolid).2.1

/-- In front of a parenthesis a function has an empty name. -/
theorem isCallableName_nil (t : Text) : IsCallableName lexicon.operators [] ('(' :: t) := by
  have hhead : ∀ a ∈ ('(' :: t).head?, a = '(' := by
    intro a ha
    rw [List.head?_cons, Option.mem_some_iff] at ha
    exact ha.symm
  refine .word (fun w hw => dropToken?_operator_paren h hw t) ⟨by simp, ?_⟩ (by simp) ?_
  · intro a ha
    rw [hhead a ha]
    decide
  · intro a ha
    rw [hhead a ha]
    rfl

include hdot

/-- What is read behind the word has no name, and the cursor stops in front of the sign. -/
theorem readName_gap (offset : Nat) :
    ((line.kind.readName lexicon.operators ⟨offset, line.gap ++ line.rest⟩).1).heading line.kind =
        .unnamed line.kind ∧
      (line.kind.readName lexicon.operators ⟨offset, line.gap ++ line.rest⟩).2.rest = line.rest := by
  have hgap := line.isRun_gap
  have hparts : NameParts.text ⟨line.gap, [], [], line.rest⟩ = line.gap ++ line.rest := by
    simp [NameParts.text, NameParts.before]
  have hfits : NameParts.Fits lexicon.operators line.kind ⟨line.gap, [], [], line.rest⟩ := by
    refine ⟨hgap, ?_, ?_⟩
    · intro hcall
      rcases line.nameless with ⟨hkind, -⟩ | ⟨-, hhead⟩
      · simp [hkind, Kind.isCallable] at hcall
      · obtain ⟨t, ht⟩ := List.head?_eq_some_iff.1 hhead
        dsimp only
        rw [ht]
        exact ⟨trivial, isCallableName_nil h t⟩
    · intro hplain
      refine ⟨rfl, by simp, ?_⟩
      rcases line.nameless with ⟨hkind, -, t, ht⟩ | ⟨hkind, -⟩
      · intro a ha
        dsimp only at ha
        rw [← ht] at ha
        obtain rfl : '<' = a := by simpa using ha
        rw [hkind]
        decide
      · simp [hkind, Kind.isCallable] at hplain
  have hread := Kind.readName_of_fits h hdot line.kind offset hfits
  rw [hparts] at hread
  rw [hread]
  split
  · exact ⟨rfl, by rw [Cursor.skipBlank, hgap.skipWhile_eq]⟩
  · exact ⟨rfl, rfl⟩

/-- **A definition without a name** changes nothing in its line. -/
theorem read_text :
    (CodeLine.read lexicon line.text).heading.bind Heading.found? = none ∧
      (CodeLine.read lexicon line.text).changes = [] := by
  have hmem : line.word ∈ lexicon.definitions.map (·.1) := List.mem_map_of_mem line.definition
  have hword := Lexicon.definition_mem_keywords hmem
  have hnot : line.word ∉ lexicon.controls := fun hc => h.control_not_definition _ hc hmem
  have hcontrol := Cursor.eatAny?_controls_eq_none h line.isBlank_indent hword hnot line.endsToken_gap
  have hstart := Cursor.skipBlank_of_keyword (t := line.gap ++ line.rest) h line.isBlank_indent hword
  have hdef := Lexicon.definition?_of_token h line.definition
    (c := ⟨Text.byteSize line.indent, line.word ++ (line.gap ++ line.rest)⟩) rfl line.endsToken_gap
  rw [text, CodeLine.read_of_not_control h hcontrol, hstart]
  by_cases hblank : (line.gap ++ line.rest).head?.any Text.isBlank = true
  · obtain ⟨hheading, hrest⟩ := line.readName_gap h hdot (Text.byteSize line.indent + Text.byteSize line.word)
    rw [Lexicon.readHeading_of_blank hdef hblank, hheading, hrest, line.blockWords_rest]
    exact ⟨rfl, rfl⟩
  · -- nothing stands between the word and the parenthesis
    have hgap : line.gap = [] := by
      cases hgap : line.gap with
      | nil => rfl
      | cons a gap =>
        have ha := line.isBlank_gap a (by simp [hgap])
        simp [hgap, ha] at hblank
    rw [Lexicon.readHeading_of_not_blank hdef hblank]
    dsimp only
    rw [hgap, List.nil_append, line.blockWords_rest]
    exact ⟨rfl, rfl⟩

end

end NamelessLine

/-! ## Blocks -/

namespace Scanner

section
variable {lexicon : Lexicon} (h : lexicon.Regular)
  (hdot : ∀ w ∈ lexicon.operators, w.head? ≠ some '.') (config : Config) (number : Nat)
  (scopes : ScopeStack)

include h hdot

/-- A definition without a name opens no scope and gives no tag. -/
theorem scanLine_nameless (line : NamelessLine lexicon) :
    (scanLine ⟨config, lexicon⟩ ⟨number, scopes, .code⟩ line.text).state =
        ⟨number + 1, scopes, .code⟩ ∧
      (scanLine ⟨config, lexicon⟩ ⟨number, scopes, .code⟩ line.text).tag = none := by
  have hword : line.word ∈ lexicon.keywords :=
    Lexicon.definition_mem_keywords (List.mem_map_of_mem line.definition)
  have hm : lexicon.marker? line.text = none :=
    Lexicon.marker?_of_keyword h line.isBlank_indent hword
  obtain ⟨hheading, hchanges⟩ := line.read_text h hdot
  obtain ⟨hstate, htag⟩ := @scanLine_of_read ⟨config, lexicon⟩ line.text number scopes _ hm rfl
  rw [hchanges, ScopeStack.afterAll_nil] at hstate
  refine ⟨hstate, ?_⟩
  rw [htag]
  cases hh : (CodeLine.read lexicon line.text).heading with
  | none => rfl
  | some heading =>
    cases heading with
    | unnamed kind => rfl
    | named kind name offset =>
      rw [hh] at hheading
      simp [Heading.found?] at hheading

/-- **The block of a definition without a name** closes the innermost scope around it. -/
theorem stateAfter_nameless_block (line : NamelessLine lexicon) (f : Forest lexicon)
    (close : ClosingLine) :
    stateAfter ⟨config, lexicon⟩ ⟨number, scopes, .code⟩
        (line.text :: (f.lines ++ [close.text lexicon])) =
      ⟨number + f.lines.length + 2, scopes.tail, .code⟩ := by
  rw [stateAfter_cons, (scanLine_nameless h hdot config number scopes line).1, stateAfter_append,
    stateAfter_forest h, stateAfter_cons, (scanLine_closing h config _ _ close).1]
  show ScanState.mk _ _ _ = _
  congr 1
  omega

end

/-! ## Top theorem -/

/-- Only an empty list is its own tail. -/
theorem tail_eq_self_iff (scopes : ScopeStack) : scopes.tail = scopes ↔ scopes = [] := by
  cases scopes with
  | nil => simp
  | cons scope scopes =>
    constructor
    · intro htail
      have hlength := congrArg List.length htail
      simp at hlength
    · intro hnil
      simp at hnil

/-- **A definition without a name takes a scope away.** Whatever is open around it, its line, a forest and
a closing line close the innermost scope, and the definitions behind are reported with the names that
remain. The scopes stay as they were only if there were none. -/
theorem scan_nameless_block (config : Config) (number : Nat) (scopes : ScopeStack)
    (line : NamelessLine .julia) (f : Forest .julia) (close : ClosingLine) :
    let behind := stateAfter { config } ⟨number, scopes, .code⟩
      (line.text :: (f.lines ++ [close.text .julia]))
    behind = ⟨number + f.lines.length + 2, scopes.tail, .code⟩ ∧
      (behind.scopes = scopes ↔ scopes = []) ∧
      ∀ g : Forest .julia, tagsFrom { config } behind g.lines =
        (g.tags (number + f.lines.length + 3) (ScopeStack.openNames scopes.tail)).filter
          fun t => config.isEnabled t.kind := by
  have h := Lexicon.julia_regular
  have hdot : ∀ w ∈ Lexicon.julia.operators, w.head? ≠ some '.' := by decide
  intro behind
  have hbehind : behind = ⟨number + f.lines.length + 2, scopes.tail, .code⟩ :=
    stateAfter_nameless_block h hdot config number scopes line f close
  refine ⟨hbehind, ?_, ?_⟩
  · rw [hbehind]
    exact tail_eq_self_iff scopes
  · intro g
    rw [hbehind]
    exact tagsFrom_forest h config _ _ g

/-- The block of a class or a function without a name inside a module closes the module, so the
function behind it has no scope. -/
theorem nameless_block_closes_module :
    (stateAfter {} ⟨1, [.named "M".toList], .code⟩ ["class << X".toList, "end".toList]).scopes = [] ∧
      (stateAfter {} ⟨1, [.named "M".toList], .code⟩ ["  function (x)".toList, "end".toList]).scopes =
        [] ∧
      scanText {} "module M\nclass << X\nend\nfunction f()\nend\nend\n".toList =
        [⟨"M".toList, .moduleDef, ⟨1, 8⟩, none⟩, ⟨"f".toList, .function, ⟨4, 10⟩, none⟩] ∧
      ¬ ∀ (scopes : ScopeStack) (line : NamelessLine .julia) (f : Forest .julia) (close : ClosingLine),
        (stateAfter {} ⟨0, scopes, .code⟩ (line.text :: (f.lines ++ [close.text .julia]))).scopes =
          scopes := by
  refine ⟨by decide +kernel, by decide +kernel, by decide +kernel, ?_⟩
  intro hbalanced
  have hblank : ∀ a ∈ [' '], Text.isBlank a = true := by
    rw [List.forall_mem_singleton]
    decide
  let line : NamelessLine .julia := ⟨[], "class".toList, .classDef, [' '], "<< X".toList, by simp,
    by decide, hblank, Or.inl ⟨rfl, by simp, ' ' :: ['X'], rfl⟩, by decide +kernel⟩
  have hscopes := hbalanced [.named "M".toList] line .nil ⟨[], by simp⟩
  have hclosed : (stateAfter {} ⟨0, [.named "M".toList], .code⟩
      ["class << X".toList, "end".toList]).scopes = [] := by decide +kernel
  exact absurd (hclosed.symm.trans hscopes) (by simp)

end Scanner

end Tagline
