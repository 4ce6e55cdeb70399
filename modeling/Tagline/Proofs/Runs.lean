import Tagline.Proofs.Headings
import Tagline.Scanner.Run

/-!
# Lines and runs

A line gives a tag only if it is read as code and starts with a definition (scanLine_tag_eq_some).
What a run does with a line is what the line does behind all lines before it:

    (results state lines)[i]? = lines[i]?.map (scanLine (stateAfter state (lines.take i)))
                                                                   (getElem?_results)

What the lines do to the open scopes is one list of changes:

    (stateAfter state lines).scopes = state.scopes.afterAll (changes state lines)
                                                                   (scopes_stateAfter)

The number of a line decides about the line of its tag and about nothing else (scanLine_renumbered).
-/

namespace Tagline

/-- An element of two lists, one behind the other, stands in one of them. -/
theorem append_eq_append_cons {α : Type} {xs ys before behind : List α} {a : α}
    (h : xs ++ ys = before ++ a :: behind) :
    (∃ later, xs = before ++ a :: later ∧ behind = later ++ ys) ∨
      ∃ inner, before = xs ++ inner ∧ ys = inner ++ a :: behind := by
  rcases List.append_eq_append_iff.1 h with ⟨inner, hbefore, hys⟩ | ⟨later, hxs, hrest⟩
  · exact Or.inr ⟨inner, hbefore, hys⟩
  · cases later with
    | nil => exact Or.inr ⟨[], by simpa using hxs.symm, by simpa using hrest.symm⟩
    | cons first later =>
      simp only [List.cons_append, List.cons.injEq] at hrest
      obtain ⟨rfl, rfl⟩ := hrest
      exact Or.inl ⟨later, hxs, rfl⟩

/-- The same definition on another line. -/
def Tag.onLine (number : Nat) (t : Tag) : Tag :=
  { t with position := { t.position with line := number } }

@[simp] theorem Tag.line_onLine (number : Nat) (t : Tag) : (t.onLine number).line = number := rfl

namespace Scanner

/-! ## Definitions -/

/-- What a line does to the open scopes. -/
def lineChanges (s : Scanner) (mode : Mode) (line : Text) : List ScopeChange :=
  match s.lexicon.marker? line, mode with
  | none, .code => (CodeLine.read s.lexicon line).changes
  | _, _ => []

def changes (s : Scanner) (state : ScanState) : List Text → List ScopeChange
  | [] => []
  | line :: lines => s.lineChanges state.mode line ++ changes s (s.scanLine state line).state lines

variable {s : Scanner} {state : ScanState} {line : Text}

/-! ## One line -/

theorem scanLine_of_code (hline : s.lexicon.marker? line = none) (hmode : state.mode = .code) :
    s.scanLine state line = s.scanCode (state.line + 1) state.scopes line := by
  unfold scanLine
  simp only [hline, hmode]

/-- The state and the tag behind a line of code, said with what the line says. -/
theorem scanLine_of_read {number : Nat} {scopes : ScopeStack} {code : CodeLine}
    (hline : s.lexicon.marker? line = none) (hread : CodeLine.read s.lexicon line = code) :
    (s.scanLine ⟨number, scopes, .code⟩ line).state =
        ⟨number + 1, scopes.afterAll code.changes, .code⟩ ∧
      (s.scanLine ⟨number, scopes, .code⟩ line).tag =
        code.heading.bind (s.tag? (number + 1) line (scopes.afterAll code.lead)) := by
  subst hread
  rw [scanLine_of_code hline rfl]
  simp only [scanCode, CodeLine.changes, ScopeStack.afterAll_append, and_self]

@[simp] theorem line_scanLine (s : Scanner) (state : ScanState) (line : Text) :
    (s.scanLine state line).state.line = state.line + 1 := by
  unfold scanLine
  cases s.lexicon.marker? line with
  | some marker => cases marker <;> rfl
  | none => cases state.mode <;> rfl

/-- A line that gives a tag is code, and starts with the definition of the tag. -/
theorem scanLine_tag_eq_some {t : Tag} (ht : (s.scanLine state line).tag = some t) :
    s.lexicon.marker? line = none ∧ state.mode = .code ∧
      ∃ kind name offset,
        (CodeLine.read s.lexicon line).heading = some (.named kind name offset) ∧
        s.config.isEnabled kind = true ∧
        t = ⟨name, kind, Position.inLine (state.line + 1) line offset,
          (state.scopes.afterAll (CodeLine.read s.lexicon line).lead).tagScope?⟩ := by
  cases hm : s.lexicon.marker? line with
  | some marker => cases marker <;> simp [scanLine, hm] at ht
  | none =>
    cases hmode : state.mode with
    | comment => simp [scanLine, hm, hmode] at ht
    | code =>
      rw [scanLine_of_code hm hmode] at ht
      obtain ⟨heading, hh, ht⟩ := Option.bind_eq_some_iff.1 ht
      cases heading with
      | unnamed kind => simp [tag?] at ht
      | named kind name offset =>
        simp only [tag?] at ht
        split at ht
        · next henabled =>
          exact ⟨rfl, rfl, kind, name, offset, hh, henabled, (Option.some.inj ht).symm⟩
        · simp at ht

theorem line_of_scanLine_tag {t : Tag} (ht : (s.scanLine state line).tag = some t) :
    t.line = state.line + 1 := by
  obtain ⟨-, -, kind, name, offset, -, -, rfl⟩ := scanLine_tag_eq_some ht
  exact Position.line_inLine _ _ _

/-- A line of code that starts with a definition of an enabled kind gives its tag. -/
theorem scanLine_tag_of_heading {kind : Kind} {name : Text} {offset : Nat}
    (hm : s.lexicon.marker? line = none) (hmode : state.mode = .code)
    (hh : (CodeLine.read s.lexicon line).heading = some (.named kind name offset))
    (henabled : s.config.isEnabled kind = true) :
    (s.scanLine state line).tag =
      some ⟨name, kind, Position.inLine (state.line + 1) line offset,
        (state.scopes.afterAll (CodeLine.read s.lexicon line).lead).tagScope?⟩ := by
  rw [scanLine_of_code hm hmode]
  show (CodeLine.read s.lexicon line).heading.bind _ = _
  rw [hh]
  simp only [Option.bind_some, tag?, henabled, if_true]

theorem scopes_scanLine (s : Scanner) (state : ScanState) (line : Text) :
    (s.scanLine state line).state.scopes =
      state.scopes.afterAll (s.lineChanges state.mode line) := by
  cases hm : s.lexicon.marker? line with
  | some marker => cases marker <;> simp [scanLine, lineChanges, hm]
  | none =>
    cases hmode : state.mode with
    | comment => simp [scanLine, lineChanges, hm, hmode]
    | code =>
      rw [scanLine_of_code hm hmode]
      simp only [lineChanges, hm, CodeLine.changes, ScopeStack.afterAll_append]
      rfl

/-- The events that a line can cause. -/
theorem cases_of_mem_events {e : Event} (he : e ∈ (s.scanLine state line).events) :
    e = .commentStarted (state.line + 1) ∨ e = .commentEnded (state.line + 1) ∨
      (∃ scope depth, e = .entered scope depth ∨ e = .left scope depth) ∨
      ∃ heading, s.lexicon.marker? line = none ∧ state.mode = .code ∧
        (CodeLine.read s.lexicon line).heading = some heading ∧
        e = s.headingEvent (state.line + 1) line heading := by
  cases hm : s.lexicon.marker? line with
  | some marker => cases marker <;> simp_all [scanLine]
  | none =>
    cases hmode : state.mode with
    | comment => simp [scanLine, hm, hmode] at he
    | code =>
      rw [scanLine_of_code hm hmode] at he
      simp only [scanCode, List.mem_append] at he
      rcases he with ((he | he) | he) | he
      · exact Or.inr (Or.inr (Or.inl (ScopeStack.exists_of_mem_events he)))
      · exact Or.inr (Or.inr (Or.inl (ScopeStack.exists_of_mem_events he)))
      · obtain ⟨heading, hh, rfl⟩ := Option.map_eq_some_iff.1 (Option.mem_toList.1 he)
        exact Or.inr (Or.inr (Or.inr ⟨heading, rfl, rfl, hh, rfl⟩))
      · exact Or.inr (Or.inr (Or.inl (ScopeStack.exists_of_mem_events he)))

/-! ## The number of a line -/

theorem tag?_renumbered (s : Scanner) (m n : Nat) (line : Text) (scopes : ScopeStack)
    (heading : Heading) :
    s.tag? n line scopes heading = (s.tag? m line scopes heading).map (Tag.onLine n) := by
  cases heading with
  | unnamed kind => rfl
  | named kind name offset =>
    have hposition : Position.inLine n line offset =
        { Position.inLine m line offset with line := n } := by
      unfold Position.inLine
      split
      · rfl
      · rfl
    simp only [tag?, hposition]
    split
    · rfl
    · rfl

/-- **A line with another number** does the same, and its tag stands on the line of that number. -/
theorem scanLine_renumbered (s : Scanner) (state : ScanState) (n : Nat) (line : Text) :
    (s.scanLine { state with line := n } line).state =
        { (s.scanLine state line).state with line := n + 1 } ∧
      (s.scanLine { state with line := n } line).tag =
        (s.scanLine state line).tag.map (Tag.onLine (n + 1)) := by
  unfold scanLine
  cases s.lexicon.marker? line with
  | some marker => cases marker <;> exact ⟨rfl, rfl⟩
  | none =>
    cases state.mode with
    | comment => exact ⟨rfl, rfl⟩
    | code =>
      refine ⟨rfl, ?_⟩
      show (CodeLine.read s.lexicon line).heading.bind _ =
        ((CodeLine.read s.lexicon line).heading.bind _).map _
      cases (CodeLine.read s.lexicon line).heading with
      | none => rfl
      | some heading => exact tag?_renumbered s (state.line + 1) (n + 1) line _ heading

/-! ## Runs -/

@[simp] theorem stateAfter_cons (s : Scanner) (state : ScanState) (line : Text) (lines : List Text) :
    s.stateAfter state (line :: lines) = s.stateAfter (s.scanLine state line).state lines := rfl

theorem stateAfter_append (s : Scanner) (state : ScanState) (ls ms : List Text) :
    s.stateAfter state (ls ++ ms) = s.stateAfter (s.stateAfter state ls) ms := by
  unfold stateAfter
  rw [List.foldl_append]

theorem tagsFrom_cons (s : Scanner) (state : ScanState) (line : Text) (lines : List Text) :
    s.tagsFrom state (line :: lines) =
      (s.scanLine state line).tag.toList ++ s.tagsFrom (s.scanLine state line).state lines := by
  simp only [tagsFrom, results, List.filterMap_cons]
  cases (s.scanLine state line).tag <;> rfl

theorem eventsFrom_cons (s : Scanner) (state : ScanState) (line : Text) (lines : List Text) :
    s.eventsFrom state (line :: lines) =
      (s.scanLine state line).events ++ s.eventsFrom (s.scanLine state line).state lines := rfl

theorem eventsFrom_append (s : Scanner) (state : ScanState) (ls ms : List Text) :
    s.eventsFrom state (ls ++ ms) =
      s.eventsFrom state ls ++ s.eventsFrom (s.stateAfter state ls) ms := by
  unfold eventsFrom
  rw [results_append, List.flatMap_append]

@[simp] theorem line_stateAfter (s : Scanner) (state : ScanState) (lines : List Text) :
    (s.stateAfter state lines).line = state.line + lines.length := by
  induction lines generalizing state with
  | nil => rfl
  | cons line lines ih =>
    rw [stateAfter_cons, ih, line_scanLine, List.length_cons]
    omega

/-- From the start of an input, the number of lines is that of the lines scanned. -/
theorem line_stateAfter_start (s : Scanner) (lines : List Text) :
    (s.stateAfter {} lines).line = lines.length := by
  rw [line_stateAfter]
  exact Nat.zero_add lines.length

theorem getElem?_results (s : Scanner) (state : ScanState) (lines : List Text) (i : Nat) :
    (s.results state lines)[i]? =
      lines[i]?.map (s.scanLine (s.stateAfter state (lines.take i))) := by
  induction lines generalizing state i with
  | nil => rfl
  | cons line lines ih =>
    cases i with
    | zero => rfl
    | succ i =>
      simp only [results, List.getElem?_cons_succ, List.take_succ_cons, stateAfter_cons]
      exact ih _ i

theorem scopes_stateAfter (s : Scanner) (state : ScanState) (lines : List Text) :
    (s.stateAfter state lines).scopes = state.scopes.afterAll (s.changes state lines) := by
  induction lines generalizing state with
  | nil => rfl
  | cons line lines ih =>
    rw [stateAfter_cons, ih, scopes_scanLine, changes, ScopeStack.afterAll_append]

end Scanner

end Tagline
