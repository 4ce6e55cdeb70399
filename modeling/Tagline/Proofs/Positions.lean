import Tagline.Proofs.Placed
import Tagline.Proofs.Runs

/-!
# Positions of tags

A tag stands in a line if its name is not empty and is the text at its column, which is counted in
characters. The tag of a line stands in the line (scanLine_tag_standsIn), because its name stands at
its offset and the offset is the size of a text in front of it. The tags of a run are on lines further
and further down:

    (results {} lines)[i]?.bind tag = some t → t.line = i + 1 ∧ t.StandsIn lines[i]
    (scanLines lines).Pairwise fun t u => t.position < u.position          (positions_exact)
-/

namespace Tagline

/-- A tag stands in a line: its name is what is left of the line at its column. -/
structure Tag.StandsIn (line : Text) (t : Tag) : Prop where
  name_ne_nil : t.name ≠ []
  /-- Columns are counted from one. -/
  column_pos : 0 < t.position.column
  isPrefix_drop : t.name <+: line.drop (t.position.column - 1)

/-- What stands behind some text is at the column behind the characters of that text. -/
theorem Tag.standsIn_inLine {before name behind : Text} (hne : name ≠ []) (kind : Kind) (number : Nat)
    (scope : Option TagScope) :
    Tag.StandsIn (before ++ (name ++ behind))
      ⟨name, kind, Position.inLine number (before ++ (name ++ behind)) (Text.byteSize before),
        scope⟩ := by
  rw [Position.inLine_byteSize_append]
  refine ⟨hne, Nat.succ_pos _, ?_⟩
  show name <+: (before ++ (name ++ behind)).drop (before.length + 1 - 1)
  rw [Nat.add_sub_cancel, List.drop_left]
  exact List.prefix_append name behind

namespace Scanner

variable {s : Scanner} {state : ScanState} {line : Text} {lines : List Text} {t : Tag}

/-! ## One line -/

/-- **The tag of a line stands in the line.** -/
theorem scanLine_tag_standsIn (h : s.lexicon.Regular) (ht : (s.scanLine state line).tag = some t) :
    t.StandsIn line := by
  obtain ⟨-, -, kind, name, offset, hheading, -, rfl⟩ := scanLine_tag_eq_some ht
  have hne : name ≠ [] := CodeLine.name_ne_nil_of_heading hheading
  obtain ⟨before, behind, rfl, rfl⟩ := CodeLine.exists_before_of_heading h hheading
  exact Tag.standsIn_inLine hne kind _ _

/-! ## Runs -/

/-- The tag at an index is the tag of the line there, whose number is one more. -/
theorem exists_line_of_results_tag {i : Nat}
    (ht : (s.results state lines)[i]?.bind (·.tag) = some t) :
    t.line = state.line + i + 1 ∧ ∃ line, lines[i]? = some line ∧
      (s.scanLine (s.stateAfter state (lines.take i)) line).tag = some t := by
  rw [getElem?_results] at ht
  cases hline : lines[i]? with
  | none => simp [hline] at ht
  | some line =>
    have htag : (s.scanLine (s.stateAfter state (lines.take i)) line).tag = some t := by
      simpa only [hline, Option.map_some, Option.bind_some] using ht
    have hi : i < lines.length := (List.getElem?_eq_some_iff.1 hline).1
    have hnumber : (s.stateAfter state (lines.take i)).line = state.line + i := by
      rw [line_stateAfter, List.length_take, Nat.min_eq_left (Nat.le_of_lt hi)]
    refine ⟨?_, line, rfl, htag⟩
    rw [line_of_scanLine_tag htag, hnumber]

theorem lt_line_of_mem_tagsFrom (ht : t ∈ s.tagsFrom state lines) : state.line < t.line := by
  induction lines generalizing state with
  | nil => simp [tagsFrom] at ht
  | cons line lines ih =>
    rw [tagsFrom_cons, List.mem_append] at ht
    rcases ht with hhere | hbelow
    · rw [line_of_scanLine_tag (Option.mem_toList.1 hhere)]
      omega
    · have hlt := ih hbelow
      rw [line_scanLine] at hlt
      omega

/-- **The tags of a run** are on lines further and further down. -/
theorem pairwise_line_tagsFrom (s : Scanner) (state : ScanState) (lines : List Text) :
    (s.tagsFrom state lines).Pairwise fun t u => t.line < u.line := by
  induction lines generalizing state with
  | nil => exact List.Pairwise.nil
  | cons line lines ih =>
    rw [tagsFrom_cons, List.pairwise_append]
    refine ⟨?_, ih _, ?_⟩
    · cases (s.scanLine state line).tag with
      | none => exact List.Pairwise.nil
      | some t => exact List.pairwise_singleton _ t
    · intro t hhere u hbelow
      have hlt := lt_line_of_mem_tagsFrom hbelow
      rw [line_scanLine] at hlt
      rw [line_of_scanLine_tag (Option.mem_toList.1 hhere)]
      exact hlt

/-! ## Top theorem -/

/-- **Positions are exact.** The tag that a line gives carries the number of that line, counted from
one. Its name is not empty, and is what is left of the line when the characters in front of its column
are dropped. Of two tags of a scan, the later one is on a line further down, so that a line gives one
tag at most, and the positions increase. -/
theorem positions_exact (config : Config) (lines : List Text) :
    let s : Scanner := { config }
    (∀ i t, (s.results {} lines)[i]?.bind (·.tag) = some t →
        t.line = i + 1 ∧ ∃ line, lines[i]? = some line ∧ t.StandsIn line) ∧
      (s.scanLines lines).Pairwise fun t u => t.line < u.line ∧ t.position < u.position := by
  intro s
  refine ⟨?_, ?_⟩
  · intro i t ht
    obtain ⟨hnumber, line, hline, htag⟩ := exists_line_of_results_tag ht
    refine ⟨?_, line, hline, scanLine_tag_standsIn Lexicon.julia_regular htag⟩
    rw [hnumber]
    exact congrArg (· + 1) (Nat.zero_add i)
  · refine (pairwise_line_tagsFrom s {} lines).imp ?_
    intro t u hlt
    exact ⟨hlt, Position.lt_iff.2 (Or.inl hlt)⟩

/-- Names with receivers in front of them, an operator, and characters of several bytes before and in
the names. -/
theorem positions_exact_multibyte :
    let lines := ["  function Ünï.cödé.σβ!(x) = \"𝔘\"", "=begin", "type Hidden", "=end", "end",
      "describe ω, 𝔘nit", "\tfunction Größe.<=>(a, b)"].map String.toList
    let mark : Tag := ⟨"σβ!".toList, .singletonMethod, ⟨1, 21⟩, none⟩
    let operator : Tag := ⟨"<=>".toList, .singletonMethod, ⟨7, 17⟩, some (.ofPath "ω, 𝔘nit".toList)⟩
    (results {} {} lines)[0]?.bind (·.tag) = some mark ∧
      mark.name <+: "σβ!(x) = \"𝔘\"".toList ∧
      (results {} {} lines)[6]?.bind (·.tag) = some operator ∧
      operator.name <+: "<=>(a, b)".toList ∧ mark.position < operator.position := by
  intro lines mark operator
  obtain ⟨hplace, hincreasing⟩ := positions_exact {} lines
  have hmark : (results {} {} lines)[0]?.bind (·.tag) = some mark := by decide +kernel
  have hoperator : (results {} {} lines)[6]?.bind (·.tag) = some operator := by decide +kernel
  obtain ⟨-, first, hfirst, hinFirst⟩ := hplace 0 mark hmark
  obtain ⟨-, last, hlast, hinLast⟩ := hplace 6 operator hoperator
  have hbehindFirst : lines[0]?.map (List.drop 20) = some "σβ!(x) = \"𝔘\"".toList := by
    decide +kernel
  have hbehindLast : lines[6]?.map (List.drop 16) = some "<=>(a, b)".toList := by decide +kernel
  rw [hfirst] at hbehindFirst
  rw [hlast] at hbehindLast
  have htags : scanLines {} lines =
      [mark, ⟨"ω, 𝔘nit".toList, .describe, ⟨6, 10⟩, none⟩, operator] := by decide +kernel
  rw [htags] at hincreasing
  refine ⟨hmark, ?_, hoperator, ?_, ?_⟩
  · rw [← Option.some.inj hbehindFirst]
    exact hinFirst.isPrefix_drop
  · rw [← Option.some.inj hbehindLast]
    exact hinLast.isPrefix_drop
  · exact ((List.pairwise_cons.1 hincreasing).1 operator (by simp)).2

end Scanner

end Tagline
