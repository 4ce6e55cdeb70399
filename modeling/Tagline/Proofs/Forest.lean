import Tagline.Proofs.LineForms
import Tagline.Proofs.Paths

/-!
# Well-formed sources

A well-formed source is a forest: plain lines, and blocks that consist of an opening line, a forest,
and a closing line. The scanner knows nothing of this grammar, but follows it: a line that opens a
block pushes its scope, the lines of the block leave it in place, and the closing line pops it. So
the lines of a forest leave the open scopes as they were, and their tags are those of its definitions

    tagsFrom ⟨number, scopes, .code⟩ f.lines = f.tags (number + 1) scopes.openNames
                                                                   (scan_forest)
-/

namespace Tagline

/-! ## Forests -/

inductive Opening (lexicon : Lexicon) where
  | definition (line : DefinitionLine lexicon)
  | control (line : ControlLine lexicon)
  /-- A line that is plain but for one word inside it that opens a block. -/
  | inner (line : PlainLine lexicon [.enter .anonymous])

/-- The lines of a well-formed source. -/
inductive Forest (lexicon : Lexicon) where
  | nil
  | plain (line : PlainLine lexicon []) (rest : Forest lexicon)
  | block (head : Opening lexicon) (body : Forest lexicon) (close : ClosingLine) (rest : Forest lexicon)

/-- The scope of a tag inside definitions with the names. -/
def TagScope.ofNames? (names : List Text) : Option TagScope :=
  if names = [] then none else some (.ofPath (['.'].intercalate names))

variable {lexicon : Lexicon}

namespace Opening

def text : Opening lexicon → Text
  | .definition line => line.text
  | .control line => line.text
  | .inner line => line.text

def scope : Opening lexicon → Scope
  | .definition line => .named line.name
  | _ => .anonymous

/-- The names that the line adds to those of the definitions around it. -/
def names : Opening lexicon → List Text
  | .definition line => [line.name]
  | _ => []

/-- The tag of the line, with its number and the names of the definitions around it. -/
def tag? (number : Nat) (enclosing : List Text) : Opening lexicon → Option Tag
  | .definition line =>
    some ⟨line.name, line.kind, ⟨number, line.before.length + 1⟩, TagScope.ofNames? enclosing⟩
  | _ => none

end Opening

namespace Forest

def lines : Forest lexicon → List Text
  | .nil => []
  | .plain line rest => line.text :: rest.lines
  | .block head body close rest => head.text :: (body.lines ++ close.text lexicon :: rest.lines)

/-- The tags of the definitions, from a line number on and inside definitions with the names. -/
def tags (number : Nat) (enclosing : List Text) : Forest lexicon → List Tag
  | .nil => []
  | .plain _ rest => rest.tags (number + 1) enclosing
  | .block head body _ rest =>
    (head.tag? number enclosing).toList ++ body.tags (number + 1) (enclosing ++ head.names) ++
      rest.tags (number + body.lines.length + 2) enclosing

end Forest

/-! ## Lines -/

theorem ScopeStack.tagScope?_eq_ofNames? (stack : ScopeStack) :
    stack.tagScope? = TagScope.ofNames? stack.openNames := by
  unfold tagScope? TagScope.ofNames?
  simp only [path_eq_nil_iff_openNames]
  rfl

namespace Opening

theorem openNames_scope (head : Opening lexicon) (scopes : ScopeStack) :
    ScopeStack.openNames (head.scope :: scopes) = scopes.openNames ++ head.names := by
  cases head with
  | definition line => exact ScopeStack.openNames_cons_named line.name_ne_nil scopes
  | control line => simp [scope, names]
  | inner line => simp [scope, names]

end Opening

namespace Scanner

theorem filter_toList_append (t : Option Tag) (ts us : List Tag) (p : Tag → Bool) :
    (t.toList ++ ts ++ us).filter p = (t.filter p).toList ++ (ts.filter p ++ us.filter p) := by
  rw [List.filter_append, List.filter_append, Option.toList_filter, List.append_assoc]

section
variable (h : lexicon.Regular) (config : Config) (number : Nat) (scopes : ScopeStack)

include h

theorem scanLine_plain {changes : List ScopeChange} (line : PlainLine lexicon changes) :
    (scanLine ⟨config, lexicon⟩ ⟨number, scopes, .code⟩ line.text).state =
        ⟨number + 1, scopes.afterAll changes, .code⟩ ∧
      (scanLine ⟨config, lexicon⟩ ⟨number, scopes, .code⟩ line.text).tag = none :=
  scanLine_of_read (s := ⟨config, lexicon⟩) line.not_marker (line.read_text h)

theorem scanLine_closing (close : ClosingLine) :
    (scanLine ⟨config, lexicon⟩ ⟨number, scopes, .code⟩ (close.text lexicon)).state =
        ⟨number + 1, scopes.tail, .code⟩ ∧
      (scanLine ⟨config, lexicon⟩ ⟨number, scopes, .code⟩ (close.text lexicon)).tag = none := by
  have hm : lexicon.marker? (close.text lexicon) = none := by
    rw [ClosingLine.text, ← List.append_nil lexicon.closer]
    exact Lexicon.marker?_of_keyword h close.isBlank_indent Lexicon.closer_mem_keywords
  exact scanLine_of_read (s := ⟨config, lexicon⟩) hm (close.read_text h)

/-- A line that opens a block opens its scope, and gives its tag if the kind is enabled. -/
theorem scanLine_opening (head : Opening lexicon) :
    (scanLine ⟨config, lexicon⟩ ⟨number, scopes, .code⟩ head.text).state =
        ⟨number + 1, head.scope :: scopes, .code⟩ ∧
      (scanLine ⟨config, lexicon⟩ ⟨number, scopes, .code⟩ head.text).tag =
        (head.tag? (number + 1) scopes.openNames).filter fun t => config.isEnabled t.kind := by
  cases head with
  | definition line =>
    have hword : line.word ∈ lexicon.keywords :=
      Lexicon.definition_mem_keywords (List.mem_map_of_mem line.definition)
    have hm : lexicon.marker? line.text = none := by
      rw [line.text_eq]
      exact Lexicon.marker?_of_keyword h line.isBlank_indent hword
    have hposition : Position.inLine (number + 1) line.text (Text.byteSize line.before) =
        ⟨number + 1, line.before.length + 1⟩ := by
      rw [DefinitionLine.text, List.append_assoc, Position.inLine_byteSize_append]
    obtain ⟨hstate, htag⟩ := scanLine_of_read (s := ⟨config, lexicon⟩) hm (line.read_text h)
    refine ⟨hstate, ?_⟩
    rw [Opening.text, htag]
    simp only [Option.bind_some, tag?, hposition, Opening.tag?, Option.filter_some,
      ← ScopeStack.tagScope?_eq_ofNames?]
    rfl
  | control line =>
    have hm : lexicon.marker? line.text = none := by
      rw [ControlLine.text, List.append_assoc]
      exact Lexicon.marker?_of_keyword h line.isBlank_indent (Lexicon.control_mem_keywords line.control)
    exact scanLine_of_read (s := ⟨config, lexicon⟩) hm (line.read_text h)
  | inner line => exact scanLine_plain h config number scopes line

/-- The lines of a forest leave the open scopes as they were. -/
theorem stateAfter_forest (f : Forest lexicon) :
    stateAfter ⟨config, lexicon⟩ ⟨number, scopes, .code⟩ f.lines =
      ⟨number + f.lines.length, scopes, .code⟩ := by
  induction f generalizing number scopes with
  | nil => rfl
  | plain line rest ih =>
    rw [Forest.lines, stateAfter_cons, (scanLine_plain h config number scopes line).1,
      ScopeStack.afterAll_nil, ih, List.length_cons]
    congr 1
    omega
  | block head body close rest ihbody ihrest =>
    rw [Forest.lines, stateAfter_cons, (scanLine_opening h config number scopes head).1,
      stateAfter_append, ihbody, stateAfter_cons, (scanLine_closing h config _ _ close).1,
      List.tail_cons, ihrest]
    simp only [List.length_cons, List.length_append]
    congr 1
    omega

theorem tagsFrom_forest (f : Forest lexicon) :
    tagsFrom ⟨config, lexicon⟩ ⟨number, scopes, .code⟩ f.lines =
      (f.tags (number + 1) scopes.openNames).filter fun t => config.isEnabled t.kind := by
  induction f generalizing number scopes with
  | nil => rfl
  | plain line rest ih =>
    obtain ⟨hstate, htag⟩ := scanLine_plain h config number scopes line
    rw [Forest.lines, tagsFrom_cons, hstate, htag, ScopeStack.afterAll_nil, ih]
    rfl
  | block head body close rest ihbody ihrest =>
    obtain ⟨hstate, htag⟩ := scanLine_opening h config number scopes head
    obtain ⟨hclosed, hnone⟩ := scanLine_closing h config (number + 1 + body.lines.length)
      (head.scope :: scopes) close
    rw [Forest.lines, tagsFrom_cons, hstate, htag, tagsFrom_append, ihbody,
      stateAfter_forest h, tagsFrom_cons, hclosed, hnone, List.tail_cons, ihrest, Forest.tags,
      filter_toList_append, head.openNames_scope]
    have hnumber : number + 1 + body.lines.length + 1 + 1 = number + 1 + body.lines.length + 2 := rfl
    rw [hnumber]
    rfl

end

/-! ## Top theorem -/

/-- **Well-formed sources are scanned exactly.** Whatever is open around it, the lines of a forest
leave the open scopes as they were, and give one tag for each definition of an enabled kind: with its
name, the kind of its word, the place of its name, and the names of the definitions around it. -/
theorem scan_forest (config : Config) (number : Nat) (scopes : ScopeStack) (f : Forest .julia) :
    stateAfter { config } ⟨number, scopes, .code⟩ f.lines = ⟨number + f.lines.length, scopes, .code⟩ ∧
      tagsFrom { config } ⟨number, scopes, .code⟩ f.lines =
        (f.tags (number + 1) scopes.openNames).filter fun t => config.isEnabled t.kind :=
  ⟨stateAfter_forest Lexicon.julia_regular config number scopes f,
    tagsFrom_forest Lexicon.julia_regular config number scopes f⟩

/-- A definition with a plain line in it. -/
example : ∃ f : Forest .julia,
    f.lines = ["type A".toList, "  x".toList, "end".toList] ∧
      f.tags 1 [] = [⟨"A".toList, .typeDef, ⟨1, 6⟩, none⟩] := by
  refine ⟨.block
    (.definition ⟨[], "type".toList, .typeDef, [' '], ['A'], [], by simp, by decide, by simp, ?_, by simp,
      ?_, by simp, rfl⟩)
    (.plain ⟨"  x".toList, by decide, by decide, by decide⟩ .nil) ⟨[], by simp⟩ .nil, rfl, rfl⟩
  · rw [List.forall_mem_singleton]
    decide
  · rw [List.forall_mem_singleton]
    decide

end Scanner

end Tagline
