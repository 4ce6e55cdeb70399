import Mathlib.Data.List.Basic
import Mathlib.Data.List.Induction
import Tagline.Proofs.Paths
import Tagline.Proofs.Runs

/-!
# Enclosing definitions

Every open scope was opened by one change, behind which it was not closed (exists_enter_of_afterAll):

    afterAll [] cs = opened ++ scope :: outer →
      cs = ds ++ .enter scope :: es, afterAll [] ds = outer, afterAll [] es = opened

In the changes of a run, a scope with a name is opened only by the definition of a line
(exists_definition_of_enter). So the scope of a tag, if it has one, is that of the tag of the innermost
definition that is still open, extended by its name (tag_scope_of_enclosing).
-/

namespace Tagline

/-! ## Stacks -/

namespace ScopeStack

theorem covers_append (stack : ScopeStack) (cs ds : List ScopeChange) :
    covers stack (cs ++ ds) = (covers stack cs && covers (stack.afterAll cs) ds) := by
  induction cs generalizing stack with
  | nil => simp [covers]
  | cons c cs ih =>
    cases c with
    | enter scope => simpa [covers] using ih (stack.after (.enter scope))
    | leave =>
      cases stack with
      | nil => simp [covers]
      | cons scope stack => simpa [covers] using ih (after (scope :: stack) .leave)

/-- **Every open scope was opened once**: what lies below it was open before, and what lies above it
was opened since. -/
theorem exists_enter_of_afterAll {cs : List ScopeChange} {opened outer : ScopeStack} {scope : Scope}
    (h : afterAll [] cs = opened ++ scope :: outer) :
    ∃ ds es, cs = ds ++ .enter scope :: es ∧ afterAll [] ds = outer ∧ covers [] es = true ∧
      afterAll [] es = opened := by
  induction cs using List.reverseRecOn generalizing opened with
  | nil => simp at h
  | append_singleton cs c ih =>
    rw [afterAll_append] at h
    cases c with
    | enter new =>
      cases opened with
      | nil =>
        simp only [afterAll_cons, afterAll_nil, after, List.nil_append, List.cons.injEq] at h
        obtain ⟨rfl, rfl⟩ := h
        exact ⟨cs, [], rfl, rfl, rfl, rfl⟩
      | cons top opened =>
        simp only [afterAll_cons, afterAll_nil, after, List.cons_append, List.cons.injEq] at h
        obtain ⟨rfl, h⟩ := h
        obtain ⟨ds, es, rfl, hds, hcov, hes⟩ := ih h
        refine ⟨ds, es ++ [.enter new], by simp, hds, ?_, ?_⟩
        · rw [covers_append, hcov]
          rfl
        · rw [afterAll_append, hes]
          rfl
    | leave =>
      simp only [afterAll_cons, afterAll_nil, after] at h
      cases hst : afterAll [] cs with
      | nil => simp [hst] at h
      | cons top rest =>
        rw [hst, List.tail_cons] at h
        have hcs : afterAll [] cs = (top :: opened) ++ scope :: outer := by
          rw [hst, h]
          rfl
        obtain ⟨ds, es, rfl, hds, hcov, hes⟩ := ih hcs
        refine ⟨ds, es ++ [.leave], by simp, hds, ?_, ?_⟩
        · rw [covers_append, hcov, hes]
          rfl
        · rw [afterAll_append, hes]
          rfl

end ScopeStack

/-! ## Lines -/

/-- The words inside a line open scopes without a name only. -/
theorem Lexicon.anonymous_of_mem_blockChanges {lexicon : Lexicon} {c : Cursor} {scope : Scope}
    (h : .enter scope ∈ (lexicon.blockChanges c).1) : scope = .anonymous := by
  fun_induction lexicon.blockChanges c with
  | case1 => simp at h
  | case2 c change d hs behind ih =>
    rcases List.mem_append.1 h with h | h
    · obtain rfl : change = some (.enter scope) := by simpa using h
      unfold blockStep at hs
      repeat' split at hs
      all_goals simp_all
    · exact ih h

namespace CodeLine

theorem anonymous_of_mem_blocks {lexicon : Lexicon} {line : Text} {scope : Scope}
    (h : .enter scope ∈ (CodeLine.read lexicon line).blocks) : scope = .anonymous :=
  Lexicon.anonymous_of_mem_blockChanges h

theorem anonymous_of_mem_lead {code : CodeLine} {scope : Scope} (h : .enter scope ∈ code.lead) :
    scope = .anonymous := by
  unfold lead at h
  split at h
  · simpa using h
  · simp at h

/-- A scope with a name is opened by the definition of the line. -/
theorem eq_of_changes_eq {lexicon : Lexicon} {line name : Text} {ds es : List ScopeChange}
    (h : (CodeLine.read lexicon line).changes = ds ++ .enter (.named name) :: es) :
    ∃ kind offset, (CodeLine.read lexicon line).heading = some (.named kind name offset) ∧
      ds = (CodeLine.read lexicon line).lead ∧ es = (CodeLine.read lexicon line).blocks := by
  have hlead : .enter (.named name) ∉ (CodeLine.read lexicon line).lead := by
    intro hmem
    exact absurd (anonymous_of_mem_lead hmem) (by simp)
  have hblocks : .enter (.named name) ∉ (CodeLine.read lexicon line).blocks := by
    intro hmem
    exact absurd (anonymous_of_mem_blocks hmem) (by simp)
  unfold changes opened at h
  split at h
  · next kind found offset hh =>
    rw [List.append_assoc, List.singleton_append, List.append_cons_inj_of_notMem hlead hblocks] at h
    simp only [ScopeChange.enter.injEq, Scope.named.injEq] at h
    obtain ⟨rfl, rfl, rfl⟩ := h
    exact ⟨kind, offset, hh, rfl, rfl⟩
  · have hmem : .enter (.named name) ∈ ds ++ .enter (.named name) :: es := by simp
    rw [← h] at hmem
    simp [hlead, hblocks] at hmem

end CodeLine

/-! ## Runs -/

namespace Scanner

/-- The scopes that are open where the line behind some others starts its definition. -/
def openAt (s : Scanner) (before : List Text) (line : Text) : ScopeStack :=
  (s.stateAfter {} before).scopes.afterAll (CodeLine.read s.lexicon line).lead

/-- What happens to the scopes behind the definition of a line, along the lines between, and up to
the definition of the line `next`. -/
def changesSince (s : Scanner) (before : List Text) (line : Text) (between : List Text)
    (next : Text) : List ScopeChange :=
  (CodeLine.read s.lexicon line).blocks ++ s.changes (s.stateAfter {} (before ++ [line])) between ++
    (CodeLine.read s.lexicon next).lead

/-- The definition of a line is the innermost one that is open where the line `next` starts its own:
nothing in between closes its scope, and no scope with a name is open inside it. -/
structure StaysInnermost (s : Scanner) (before : List Text) (line : Text) (between : List Text)
    (next : Text) : Prop where
  not_closed : ScopeStack.covers [] (s.changesSince before line between next) = true
  no_name_inside : ∀ name,
    Scope.named name ∉ ScopeStack.afterAll [] (s.changesSince before line between next)

/-- The line whose definition opened a scope with a name. -/
theorem exists_definition_of_enter {s : Scanner} {state : ScanState} {lines : List Text} {name : Text}
    {ds es : List ScopeChange} (h : s.changes state lines = ds ++ .enter (.named name) :: es) :
    ∃ before line between kind offset, lines = before ++ line :: between ∧
      s.lexicon.marker? line = none ∧ (s.stateAfter state before).mode = .code ∧
      (CodeLine.read s.lexicon line).heading = some (.named kind name offset) ∧
      ds = s.changes state before ++ (CodeLine.read s.lexicon line).lead ∧
      es = (CodeLine.read s.lexicon line).blocks ++
        s.changes (s.stateAfter state (before ++ [line])) between := by
  induction lines generalizing state ds with
  | nil => simp [changes] at h
  | cons line lines ih =>
    rw [changes] at h
    -- the scope is opened by the first line or by a later one
    rcases append_eq_append_cons h with ⟨a, hline, rfl⟩ | ⟨a, rfl, hrest⟩
    · unfold lineChanges at hline
      split at hline
      · next hm hmode =>
        obtain ⟨kind, offset, hh, rfl, rfl⟩ := CodeLine.eq_of_changes_eq hline
        exact ⟨[], line, lines, kind, offset, rfl, hm, hmode, hh, rfl, rfl⟩
      · simp at hline
    · obtain ⟨before, l, between, kind, offset, rfl, hm, hmode, hh, rfl, hes⟩ := ih hrest
      exact ⟨line :: before, l, between, kind, offset, rfl, hm, hmode, hh,
        (List.append_assoc _ _ _).symm, hes⟩

/-- The definition of a scope that is open where a line starts its own definition. -/
theorem exists_definition_of_open {s : Scanner} {lines : List Text} {line name : Text}
    {opened outer : ScopeStack} (h : s.openAt lines line = opened ++ .named name :: outer) :
    ∃ before l between kind offset, lines = before ++ l :: between ∧
      s.lexicon.marker? l = none ∧ (s.stateAfter {} before).mode = .code ∧
      (CodeLine.read s.lexicon l).heading = some (.named kind name offset) ∧
      s.openAt before l = outer ∧
      ScopeStack.covers [] (s.changesSince before l between line) = true ∧
      ScopeStack.afterAll [] (s.changesSince before l between line) = opened := by
  unfold openAt at h ⊢
  rw [scopes_stateAfter, ← ScopeStack.afterAll_append] at h
  obtain ⟨ds, es, hsplit, hds, hcov, hes⟩ := ScopeStack.exists_enter_of_afterAll h
  have hlead : ∀ a, (CodeLine.read s.lexicon line).lead ≠ a ++ .enter (.named name) :: es := by
    intro a ha
    have hmem : .enter (.named name) ∈ (CodeLine.read s.lexicon line).lead := by
      rw [ha]
      simp
    exact absurd (CodeLine.anonymous_of_mem_lead hmem) (by simp)
  -- a control word opens a scope without a name, so the scope was opened before
  have hcases : ∃ a, s.changes {} lines = ds ++ .enter (.named name) :: a ∧
      es = a ++ (CodeLine.read s.lexicon line).lead := by
    rcases append_eq_append_cons hsplit with hearlier | ⟨a, -, hrest⟩
    · exact hearlier
    · exact absurd hrest (hlead a)
  obtain ⟨a, hlines, rfl⟩ := hcases
  obtain ⟨before, l, between, kind, offset, rfl, hm, hmode, hh, rfl, rfl⟩ :=
    exists_definition_of_enter hlines
  refine ⟨before, l, between, kind, offset, rfl, hm, hmode, hh, ?_, hcov, hes⟩
  rw [scopes_stateAfter, ← ScopeStack.afterAll_append]
  exact hds

theorem path_openAt_eq_nil_iff (s : Scanner) (lines : List Text) (line : Text) :
    (s.openAt lines line).path = [] ↔ ∀ name, Scope.named name ∉ s.openAt lines line := by
  constructor
  · intro hpath name hmem
    obtain ⟨opened, outer, hsplit⟩ := List.append_of_mem hmem
    obtain ⟨_, _, _, _, _, _, _, _, hh, _⟩ := exists_definition_of_open hsplit
    exact CodeLine.name_ne_nil_of_heading hh
      ((ScopeStack.path_eq_nil_iff _).1 hpath (.named name) hmem)
  · intro hnone
    simpa using ScopeStack.path_append_of_anonymous hnone []

/-- The tag that a scope belongs to. -/
theorem exists_enclosing_tag {s : Scanner} (hall : s.config = {}) {lines : List Text} {line : Text}
    {scope : TagScope} (h : (s.openAt lines line).tagScope? = some scope) :
    ∃ before l between u, lines = before ++ l :: between ∧
      (s.scanLine (s.stateAfter {} before) l).tag = some u ∧
      scope.path = u.innerPath ∧
      s.StaysInnermost before l between line ∧
      s.openAt lines line =
        ScopeStack.afterAll [] (s.changesSince before l between line) ++
          .named u.name :: s.openAt before l := by
  have hne : (s.openAt lines line).path ≠ [] := by
    intro hnil
    rw [(ScopeStack.tagScope?_eq_none_iff _).2 hnil] at h
    simp at h
  obtain ⟨name, hmem⟩ : ∃ name, .named name ∈ s.openAt lines line := by
    rw [ne_eq, path_openAt_eq_nil_iff] at hne
    simpa using hne
  obtain ⟨opened, innermost, outer, hsplit, hnone⟩ := ScopeStack.exists_innermost hmem
  obtain ⟨before, l, between, kind, offset, hlines, hm, hmode, hh, rfl, hcov, rfl⟩ :=
    exists_definition_of_open hsplit
  have henabled : s.config.isEnabled kind = true := by
    rw [hall]
    rfl
  have hpath : scope.path = ScopeStack.extendPath (s.openAt before l).path innermost := by
    rw [ScopeStack.path_of_tagScope? h, hsplit, ScopeStack.path_append_of_anonymous hnone,
      ScopeStack.path_cons_named (CodeLine.name_ne_nil_of_heading hh)]
  refine ⟨before, l, between, _, hlines, scanLine_tag_of_heading hm hmode hh henabled, ?_,
    ⟨hcov, hnone⟩, hsplit⟩
  rw [hpath, ScopeStack.innerPath_eq_extendPath (s.openAt before l) rfl]

/-- Where a line stands that is found among the first ones. -/
theorem place_of_take {lines before between : List Text} {l : Text} {i : Nat}
    (h : lines.take i = before ++ l :: between) :
    before.length < i ∧ lines[before.length]? = some l ∧ lines.take before.length = before ∧
      (lines.take i).drop (before.length + 1) = between := by
  have hlines : lines = before ++ l :: (between ++ lines.drop i) := by
    rw [← List.cons_append, ← List.append_assoc, ← h, List.take_append_drop]
  refine ⟨?_, ?_, ?_, ?_⟩
  · have hlength := congrArg List.length h
    simp only [List.length_take, List.length_append, List.length_cons] at hlength
    omega
  · rw [hlines]
    simp
  · rw [hlines]
    simp
  · rw [h]
    simp

/-! ## Top theorem -/

/-- **No path without its definition.** Where all kinds are reported, a tag has no scope exactly if no
scope with a name is open. Otherwise the innermost one belongs to the definition of an earlier line,
and the path is the path of that line's tag, extended by its name. -/
theorem tag_scope_of_enclosing (lexicon : Lexicon) (lines : List Text) (i : Nat) (t : Tag)
    (ht : (results { lexicon } {} lines)[i]?.bind LineResult.tag = some t) :
    ∃ line, lines[i]? = some line ∧
      (t.scope = none ↔ ∀ name, .named name ∉ openAt { lexicon } (lines.take i) line) ∧
      ∀ scope, t.scope = some scope →
        ∃ j l u, j < i ∧ lines[j]? = some l ∧
          (results { lexicon } {} lines)[j]?.bind LineResult.tag = some u ∧ u.line < t.line ∧
          scope.path = u.innerPath ∧
          StaysInnermost { lexicon } (lines.take j) l ((lines.take i).drop (j + 1)) line ∧
          openAt { lexicon } (lines.take i) line =
            ScopeStack.afterAll []
                (changesSince { lexicon } (lines.take j) l ((lines.take i).drop (j + 1)) line) ++
              .named u.name :: openAt { lexicon } (lines.take j) l := by
  rw [getElem?_results] at ht
  obtain ⟨r, hr, ht⟩ := Option.bind_eq_some_iff.1 ht
  obtain ⟨line, hline, rfl⟩ := Option.map_eq_some_iff.1 hr
  have htag : t.scope = (openAt { lexicon } (lines.take i) line).tagScope? ∧ t.line = i + 1 := by
    obtain ⟨-, -, kind, name, offset, -, -, rfl⟩ := scanLine_tag_eq_some ht
    have hi : i ≤ lines.length := Nat.le_of_lt (List.getElem?_eq_some_iff.1 hline).1
    refine ⟨rfl, ?_⟩
    simp [Tag.line, hi]
  refine ⟨line, hline, ?_, ?_⟩
  · rw [htag.1, ScopeStack.tagScope?_eq_none_iff, path_openAt_eq_nil_iff]
  · intro scope hscope
    rw [htag.1] at hscope
    obtain ⟨before, l, between, u, hsplit, hu, hpath, hinner, hopen⟩ :=
      exists_enclosing_tag rfl hscope
    obtain ⟨hlt, hget, htake, hbetween⟩ := place_of_take hsplit
    have huline : u.line = before.length + 1 := by
      obtain ⟨-, -, kind, name, offset, -, -, rfl⟩ := scanLine_tag_eq_some hu
      simp [Tag.line]
    refine ⟨before.length, l, u, hlt, hget, ?_, by omega, hpath, ?_, ?_⟩
    · rw [getElem?_results, hget, htake]
      exact hu
    · rw [htake, hbetween]
      exact hinner
    · rw [htake, hbetween]
      exact hopen

/-- In this source the type is defined inside a function, with two blocks without a name around. -/
theorem tag_scope_of_enclosing_type :
    let lines := ["module M", "begin", "function f(x) do", "type T"].map String.toList
    let t : Tag := ⟨"T".toList, .typeDef, ⟨4, 6⟩, some (.ofPath "M.f".toList)⟩
    (results {} {} lines)[3]?.bind LineResult.tag = some t ∧
      ∃ j u, j < 3 ∧ (results {} {} lines)[j]?.bind LineResult.tag = some u ∧
        u.innerPath = "M.f".toList := by
  intro lines t
  have ht : (results {} {} lines)[3]?.bind LineResult.tag = some t := by decide +kernel
  obtain ⟨line, -, -, hscope⟩ := tag_scope_of_enclosing .julia lines 3 t ht
  obtain ⟨j, l, u, hj, -, hu, -, hpath, -⟩ := hscope (.ofPath "M.f".toList) rfl
  exact ⟨ht, j, u, hj, hu, hpath.symm⟩

end Scanner

end Tagline
