import Tagline.Proofs.Comments
import Tagline.Proofs.Enclosed
import Tagline.Proofs.Positions

/-!
# Splitting paths

A path joins the names of the open definitions by dots. Where no name has a dot in it, the path can be
split back

    stack.path ≠ [] → stack.path.splitOn '.' = stack.openNames      (splitsBack_of_dotless)

and then stacks with the same path have the same names open (path_eq_iff_openNames). A reader admits a
dot in the title of a `describe` or `context` block only: the dots of a function stand behind its
receivers and are dropped with them (dot_not_mem_readCallable). So if no visible line defines something
with a title, no scope with a dot is ever opened, and none is ever open (dotless_stateAfter).
-/

namespace Tagline

/-! ## Definitions -/

/-- Whether definitions of the kind have a title, which is free text, and not a name. -/
def Kind.isTitled : Kind → Bool
  | .describe | .context => true
  | _ => false

/-- Whether the line starts with the definition of something that has a title. -/
def Lexicon.definesTitle (lexicon : Lexicon) (line : Text) : Bool :=
  match (CodeLine.read lexicon line).heading with
  | some (.named kind _ _) => kind.isTitled
  | _ => false

/-- A scope without a name, or with a name that has no dot in it. -/
inductive Scope.Dotless : Scope → Prop
  | anonymous : Dotless .anonymous
  | named {name : Text} (hne : name ≠ []) (hdot : '.' ∉ name) : Dotless (.named name)

/-- The path of the stack tells which names are open, and in which order. -/
structure ScopeStack.SplitsBack (stack : ScopeStack) : Prop where
  dotless : ∀ scope ∈ stack, scope.Dotless
  path_eq_nil_iff : stack.path = [] ↔ ∀ name ∈ stack.names, name = []
  splitOn_path : stack.path ≠ [] → stack.path.splitOn '.' = stack.names.filter (· ≠ [])

/-! ## Stacks -/

namespace ScopeStack

/-- What holds of all scopes that are opened, and of those that were open, holds of those that are open
in the end. -/
theorem forall_mem_afterAll {P : Scope → Prop} {stack : ScopeStack} {changes : List ScopeChange}
    (hstack : ∀ scope ∈ stack, P scope) (hchanges : ∀ scope, .enter scope ∈ changes → P scope) :
    ∀ scope ∈ stack.afterAll changes, P scope := by
  induction changes generalizing stack with
  | nil => exact hstack
  | cons change changes ih =>
    have hlater : ∀ scope, .enter scope ∈ changes → P scope := by
      intro scope hmem
      exact hchanges scope (List.mem_cons_of_mem change hmem)
    rw [afterAll_cons]
    apply ih _ hlater
    intro scope hmem
    cases change with
    | enter new =>
      rcases List.mem_cons.1 hmem with rfl | hmem
      · exact hchanges scope List.mem_cons_self
      · exact hstack scope hmem
    | leave => exact hstack scope (List.mem_of_mem_tail hmem)

section
variable {stack other : ScopeStack} (h : ∀ scope ∈ stack, scope.Dotless)

include h

theorem dot_not_mem_of_mem_names : ∀ name ∈ stack.names, '.' ∉ name := by
  intro name hmem
  obtain ⟨scope, hscope, rfl⟩ := List.mem_map.1 hmem
  cases h scope (List.mem_reverse.1 hscope) with
  | anonymous => exact List.not_mem_nil
  | named hne hdot => exact hdot

/-- **Paths without dots in the names** can be split back. -/
theorem splitsBack_of_dotless : stack.SplitsBack where
  dotless := h
  path_eq_nil_iff := by
    rw [path_eq_nil_iff_openNames, openNames, List.filter_eq_nil_iff]
    simp only [ne_eq, decide_not, Bool.not_eq_true', decide_eq_false_iff_not, not_not]
  splitOn_path := by
    intro hpath
    have hopen : stack.openNames ≠ [] := mt (path_eq_nil_iff_openNames stack).2 hpath
    have hdots : ∀ name ∈ stack.openNames, '.' ∉ name := by
      intro name hmem
      exact dot_not_mem_of_mem_names h name (List.mem_filter.1 hmem).1
    rw [path_eq_intercalate]
    exact List.splitOn_intercalate '.' hdots hopen

/-- Stacks with the same path have the same names open. -/
theorem path_eq_iff_openNames (hother : ∀ scope ∈ other, scope.Dotless) :
    stack.path = other.path ↔ stack.openNames = other.openNames := by
  constructor
  · intro heq
    by_cases hpath : stack.path = []
    · have hopen := (path_eq_nil_iff_openNames stack).1 hpath
      have hopen' := (path_eq_nil_iff_openNames other).1 (heq ▸ hpath)
      rw [hopen, hopen']
    · have hsplit := (splitsBack_of_dotless h).splitOn_path hpath
      have hsplit' := (splitsBack_of_dotless hother).splitOn_path (heq ▸ hpath)
      show stack.names.filter (· ≠ []) = other.names.filter (· ≠ [])
      rw [← hsplit, ← hsplit', heq]
  · intro heq
    rw [path_eq_intercalate, path_eq_intercalate, heq]

end

end ScopeStack

/-! ## Names -/

namespace Kind

/-- The name of a function has no dot in it, because receivers are dropped. -/
theorem dot_not_mem_readCallable {operators : List Text} (hops : ∀ w ∈ operators, '.' ∉ w)
    {kind k : Kind} {c : Cursor} {name : Text} {offset : Nat}
    (hread : (kind.readCallable operators c).1 = .named k name offset) : '.' ∉ name := by
  have hword : ∀ t : Text, '.' ∉ t.takeWhile Text.isWord := by
    intro t hmem
    have hdot := List.all_eq_true.1 List.all_takeWhile '.' hmem
    exact absurd hdot (by decide)
  fun_induction readCallable kind operators c with
  | case1 kind c start operator behind ho =>
    obtain ⟨-, rfl, -⟩ := NameReading.named.inj hread
    exact hops operator (Cursor.eatAny?_mem ho).1
  | case2 kind c start ho behind hdot ih => exact ih hread
  | case3 kind c start ho word behind hdot mark hmark =>
    obtain ⟨-, rfl, -⟩ := NameReading.named.inj hread
    have hne : '.' ≠ mark := by
      rintro rfl
      exact hdot (Option.filter_eq_some_iff.1 hmark).1
    simpa [hne] using hword start.rest
  | case4 kind c start ho word behind hdot hmark =>
    obtain ⟨-, rfl, -⟩ := NameReading.named.inj hread
    exact hword start.rest

theorem not_admits_dot {kind : Kind} (h : kind.isTitled = false) : kind.admits '.' = false := by
  cases kind with
  | describe => cases h
  | context => cases h
  | _ => decide

theorem dot_not_mem_readPlain {kind k : Kind} {c : Cursor} {name : Text} {offset : Nat}
    (hread : (kind.readPlain c).1 = .named k name offset) (hk : k.isTitled = false) :
    '.' ∉ name := by
  rw [readPlain_eq] at hread
  split at hread
  · cases hread
  · obtain ⟨rfl, rfl, -⟩ := NameReading.named.inj hread
    intro hmem
    have hadmits := List.all_eq_true.1 List.all_takeWhile '.' hmem
    rw [not_admits_dot hk] at hadmits
    cases hadmits

end Kind

/-! ## Lines -/

section
variable {lexicon : Lexicon} (hops : ∀ w ∈ lexicon.operators, '.' ∉ w) {line : Text}

include hops

/-- A name that a line defines has no dot in it, if it is no title. -/
theorem CodeLine.dot_not_mem_of_heading {kind : Kind} {name : Text} {offset : Nat}
    (hh : (CodeLine.read lexicon line).heading = some (.named kind name offset))
    (hkind : kind.isTitled = false) : '.' ∉ name := by
  obtain ⟨word, wordKind, d, -, -, -, hread, -⟩ := Lexicon.readHeading_eq_named hh
  unfold Kind.readName at hread
  split at hread
  · exact Kind.dot_not_mem_readCallable hops hread
  · exact Kind.dot_not_mem_readPlain hread hkind

/-- **The scopes that a line opens** have no dots in their names, unless the line defines something
with a title. -/
theorem CodeLine.dotless_of_enter (hline : lexicon.definesTitle line = false) {scope : Scope}
    (hmem : .enter scope ∈ (CodeLine.read lexicon line).changes) : scope.Dotless := by
  unfold changes at hmem
  rcases List.mem_append.1 hmem with hmem | hblocks
  · rcases List.mem_append.1 hmem with hlead | hopened
    · rw [anonymous_of_mem_lead hlead]
      exact .anonymous
    · unfold opened at hopened
      unfold Lexicon.definesTitle at hline
      split at hopened
      · next kind name offset hh =>
        rw [List.mem_singleton, ScopeChange.enter.injEq] at hopened
        simp only [hh] at hline
        rw [hopened]
        exact .named (name_ne_nil_of_heading hh) (dot_not_mem_of_heading hops hh hline)
      · cases hopened
  · rw [anonymous_of_mem_blocks hblocks]
    exact .anonymous

end

/-! ## Runs -/

theorem Lexicon.visibleLines_append_singleton (lexicon : Lexicon) (lines : List Text) (line : Text) :
    lexicon.visibleLines (lines ++ [line]) = lexicon.visibleLines lines ++
      if lexicon.shows lines line then [line] else [] := by
  unfold visibleLines
  rw [visible_append_singleton, List.map_append]
  split
  · rfl
  · rfl

/-- Lines that are visible stay visible when others follow. -/
theorem Lexicon.visibleLines_isPrefix (lexicon : Lexicon) (lines more : List Text) :
    lexicon.visibleLines lines <+: lexicon.visibleLines (lines ++ more) := by
  induction more using List.reverseRecOn with
  | nil => exact ⟨[], by rw [List.append_nil, List.append_nil]⟩
  | append_singleton more line ih =>
    rw [← List.append_assoc, visibleLines_append_singleton]
    exact ih.trans (List.prefix_append _ _)

namespace Scanner

variable {s : Scanner}

section
variable (hops : ∀ w ∈ s.lexicon.operators, '.' ∉ w)

include hops

/-- One more line opens no scope with a dot. -/
theorem dotless_scanLine {lines : List Text} {line : Text}
    (hscopes : ∀ scope ∈ (s.stateAfter {} lines).scopes, scope.Dotless)
    (hline : s.lexicon.shows lines line = true → s.lexicon.definesTitle line = false) :
    ∀ scope ∈ (s.scanLine (s.stateAfter {} lines) line).state.scopes, scope.Dotless := by
  by_cases hshows : s.lexicon.shows lines line = true
  · obtain ⟨hmarker, hmode⟩ := mode_stateAfter_of_shows hshows
    rw [scopes_scanLine]
    apply ScopeStack.forall_mem_afterAll hscopes
    intro scope hmem
    simp only [lineChanges, hmarker, hmode] at hmem
    exact CodeLine.dotless_of_enter hops (hline hshows) hmem
  · rw [(scanLine_of_hidden (hidden_of_not_shows hshows)).1]
    exact hscopes

/-- **No scope with a dot is open**, if no visible line defines something with a title. -/
theorem dotless_stateAfter {lines : List Text}
    (h : ∀ line ∈ s.lexicon.visibleLines lines, s.lexicon.definesTitle line = false) :
    ∀ scope ∈ (s.stateAfter {} lines).scopes, scope.Dotless := by
  induction lines using List.reverseRecOn with
  | nil =>
    intro scope hmem
    cases hmem
  | append_singleton lines line ih =>
    rw [Lexicon.visibleLines_append_singleton] at h
    rw [stateAfter_append_singleton]
    apply dotless_scanLine hops
    · apply ih
      intro l hl
      exact h l (List.mem_append_left _ hl)
    · intro hshows
      apply h
      rw [if_pos hshows]
      exact List.mem_append_right _ List.mem_cons_self

/-- The same of the lines up to any of them. -/
theorem dotless_stateAfter_of_isPrefix {lines before : List Text} (hbefore : before <+: lines)
    (h : ∀ line ∈ s.lexicon.visibleLines lines, s.lexicon.definesTitle line = false) :
    ∀ scope ∈ (s.stateAfter {} before).scopes, scope.Dotless := by
  obtain ⟨more, rfl⟩ := hbefore
  apply dotless_stateAfter hops
  intro line hmem
  exact h line ((s.lexicon.visibleLines_isPrefix before more).subset hmem)

/-- No scope with a dot is open where a line starts its definition. -/
theorem dotless_openAt {lines before : List Text} (hbefore : before <+: lines) (line : Text)
    (h : ∀ line ∈ s.lexicon.visibleLines lines, s.lexicon.definesTitle line = false) :
    ∀ scope ∈ s.openAt before line, scope.Dotless := by
  apply ScopeStack.forall_mem_afterAll (dotless_stateAfter_of_isPrefix hops hbefore h)
  intro scope hmem
  rw [CodeLine.anonymous_of_mem_lead hmem]
  exact .anonymous

end

/-- The path of a tag's scope is that of the scopes around its definition. -/
theorem scopePath?_of_results_tag {lines : List Text} {i : Nat} {t : Tag}
    (ht : (s.results {} lines)[i]?.bind (·.tag) = some t) :
    ∃ line, lines[i]? = some line ∧
      t.scopePath? = (s.openAt (lines.take i) line).tagScope?.map TagScope.path := by
  obtain ⟨-, line, hline, htag⟩ := exists_line_of_results_tag ht
  obtain ⟨-, -, kind, name, offset, -, -, rfl⟩ := scanLine_tag_eq_some htag
  exact ⟨line, hline, rfl⟩

theorem map_path_tagScope?_eq_iff {stack other : ScopeStack} :
    stack.tagScope?.map TagScope.path = other.tagScope?.map TagScope.path ↔
      stack.path = other.path := by
  constructor
  · intro heq
    rw [← ScopeStack.path?_tagScope?, heq, ScopeStack.path?_tagScope?]
  · intro heq
    unfold ScopeStack.tagScope?
    rw [heq]

/-! ## Top theorem -/

/-- **Paths split back.** If no visible line is the definition of a `describe` or `context` block, then
behind any number of the lines each open scope has no name, or a name without a dot. The path is empty
exactly if no name is open, and otherwise it splits at its dots into the open names, outermost first.
So two tags have the same path exactly if the same names are open around them, in the same order. -/
theorem path_splits_back (config : Config) (lines : List Text)
    (h : ∀ line ∈ Lexicon.julia.visibleLines lines, Lexicon.julia.definesTitle line = false) :
    let s : Scanner := { config }
    (∀ before, before <+: lines → (s.stateAfter {} before).scopes.SplitsBack) ∧
      ∀ i j t u, (s.results {} lines)[i]?.bind (·.tag) = some t →
        (s.results {} lines)[j]?.bind (·.tag) = some u →
        ∃ line line', lines[i]? = some line ∧ lines[j]? = some line' ∧
          (t.scopePath? = u.scopePath? ↔ (s.openAt (lines.take i) line).openNames =
            (s.openAt (lines.take j) line').openNames) := by
  intro s
  have hops : ∀ w ∈ Lexicon.julia.operators, '.' ∉ w := by decide
  constructor
  · intro before hbefore
    exact ScopeStack.splitsBack_of_dotless (dotless_stateAfter_of_isPrefix hops hbefore h)
  · intro i j t u ht hu
    obtain ⟨line, hline, hpath⟩ := scopePath?_of_results_tag ht
    obtain ⟨line', hline', hpath'⟩ := scopePath?_of_results_tag hu
    refine ⟨line, line', hline, hline', ?_⟩
    rw [hpath, hpath', map_path_tagScope?_eq_iff]
    exact ScopeStack.path_eq_iff_openNames (dotless_openAt hops (List.take_prefix i lines) line h)
      (dotless_openAt hops (List.take_prefix j lines) line' h)

/-- Receivers with dots, an operator, blocks without a name, and a title that a comment hides. -/
theorem path_splits_back_receivers :
    let lines := ["module Ünï", "if a.b", "function Base.Meta.<=>(a) do", "=begin", "describe a.b",
      "=end", "type T", "end", "end", "type U"].map String.toList
    let names := ["Ünï".toList, "<=>".toList]
    let t : Tag := ⟨"T".toList, .typeDef, ⟨7, 6⟩, some (.ofPath "Ünï.<=>".toList)⟩
    let u : Tag := ⟨"U".toList, .typeDef, ⟨10, 6⟩, some (.ofPath "Ünï.<=>".toList)⟩
    (∀ line ∈ Lexicon.julia.visibleLines lines, Lexicon.julia.definesTitle line = false) ∧
      "Ünï.<=>".toList.splitOn '.' = names ∧
      (results {} {} lines)[6]?.bind (·.tag) = some t ∧
      (results {} {} lines)[9]?.bind (·.tag) = some u ∧
      ∃ line line', lines[6]? = some line ∧ lines[9]? = some line' ∧
        (openAt {} (lines.take 6) line).openNames = (openAt {} (lines.take 9) line').openNames := by
  intro lines names t u
  have htitles : ∀ line ∈ Lexicon.julia.visibleLines lines,
      Lexicon.julia.definesTitle line = false := by decide +kernel
  obtain ⟨hstacks, htags⟩ := path_splits_back {} lines htitles
  have ht : (results {} {} lines)[6]?.bind (·.tag) = some t := by decide +kernel
  have hu : (results {} {} lines)[9]?.bind (·.tag) = some u := by decide +kernel
  refine ⟨htitles, ?_, ht, hu, ?_⟩
  · have hsplit := (hstacks (lines.take 6) (List.take_prefix 6 lines)).splitOn_path (by decide +kernel)
    have hpath : (stateAfter {} {} (lines.take 6)).scopes.path = "Ünï.<=>".toList := by
      decide +kernel
    have hopen : (stateAfter {} {} (lines.take 6)).scopes.names.filter (· ≠ []) = names := by
      decide +kernel
    rw [hpath, hopen] at hsplit
    exact hsplit
  · obtain ⟨line, line', hline, hline', hiff⟩ := htags 6 9 t u ht hu
    exact ⟨line, line', hline, hline', hiff.1 rfl⟩

/-- A title with a dot in it is split into two names. -/
example :
    let scopes := (stateAfter {} {} ["context a.b".toList]).scopes
    scopes.openNames = ["a.b".toList] ∧ scopes.path.splitOn '.' = ["a".toList, "b".toList] := by
  decide +kernel

end Scanner

end Tagline
