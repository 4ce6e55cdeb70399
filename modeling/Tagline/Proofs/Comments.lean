import Mathlib.Data.List.Induction
import Tagline.Proofs.Runs
import Tagline.Proofs.Tokens

/-!
# Comments of several lines

A marker hides the lines behind it or shows them again. A line is visible if it is no marker, and the
last marker before it, if there is one, shows the lines behind it. Hidden lines do nothing but count:
a scan ends in a comment exactly if the last marker hides (mode_stateAfter_eq_comment_iff), and leaves
the scopes that the visible lines alone leave. Its tags are those of the visible lines, each moved to
the line where it stood among all lines:

    (scanLines (visible lines)).map original? = (scanLines lines).map some
                                                                   (comments_inert)

All of this is read off the lines before a line, so the inductions add lines at the end.
-/

namespace Tagline

/-! ## Definitions -/

namespace Lexicon

/-- The last marker among some lines. -/
def lastMarker? (lexicon : Lexicon) (lines : List Text) : Option Marker :=
  (lines.filterMap lexicon.marker?).getLast?

/-- Whether a line behind some others is visible. -/
def shows (lexicon : Lexicon) (before : List Text) (line : Text) : Bool :=
  (lexicon.marker? line).isNone && lexicon.lastMarker? before != some .commentStart

/-- The visible lines, each with its number among all lines. -/
def visible (lexicon : Lexicon) (lines : List Text) : List (Text × Nat) :=
  (lines.zipIdx 1).filter fun (line, number) => lexicon.shows (lines.take (number - 1)) line

def visibleLines (lexicon : Lexicon) (lines : List Text) : List Text :=
  (lexicon.visible lines).map Prod.fst

end Lexicon

/-- The tag on the line that the line of the tag was among all lines. -/
def Tag.original? (visible : List (Text × Nat)) (t : Tag) : Option Tag :=
  visible[t.line - 1]?.map fun (_, number) => t.onLine number

/-! ## Markers -/

namespace Lexicon

section
variable {lexicon : Lexicon} {line : Text}

theorem marker?_eq_start_iff :
    lexicon.marker? line = some .commentStart ↔
      ∃ behind, line = lexicon.commentStart ++ behind ∧ Text.endsToken behind = true := by
  have hdrop : (Text.dropToken? lexicon.commentStart line).isSome = true ↔
      ∃ behind, line = lexicon.commentStart ++ behind ∧ Text.endsToken behind = true := by
    simp only [Option.isSome_iff_exists, Text.dropToken?_eq_some]
  rw [← hdrop]
  unfold marker?
  split
  · next hstart => simp [hstart]
  · next hstart =>
    split
    · simp [hstart]
    · simp [hstart]

theorem marker?_eq_end_iff (h : lexicon.Regular) (hne : lexicon.commentStart ≠ lexicon.commentEnd) :
    lexicon.marker? line = some .commentEnd ↔
      ∃ behind, line = lexicon.commentEnd ++ behind ∧ Text.endsToken behind = true := by
  have hdrop : (Text.dropToken? lexicon.commentEnd line).isSome = true ↔
      ∃ behind, line = lexicon.commentEnd ++ behind ∧ Text.endsToken behind = true := by
    simp only [Option.isSome_iff_exists, Text.dropToken?_eq_some]
  rw [← hdrop]
  unfold marker?
  split
  · next hstart =>
    -- a line is one marker at most
    have hend : ¬ (Text.dropToken? lexicon.commentEnd line).isSome = true := by
      intro hend
      obtain ⟨r, hr⟩ := Option.isSome_iff_exists.1 hstart
      obtain ⟨q, hq⟩ := Option.isSome_iff_exists.1 hend
      exact hne (Text.eq_of_dropToken? (h.isSolid_symbol _ (by simp [symbols]))
        (h.isSolid_symbol _ (by simp [symbols])) hr hq)
    simp [hend]
  · split
    · next hend => simp [hend]
    · next hend => simp [hend]

end

/-! ## One more line -/

section
variable (lexicon : Lexicon) (lines : List Text) (line : Text)

theorem lastMarker?_append_singleton :
    lexicon.lastMarker? (lines ++ [line]) = (lexicon.marker? line).or (lexicon.lastMarker? lines) := by
  unfold lastMarker?
  rw [List.filterMap_append, List.getLast?_append]
  cases hm : lexicon.marker? line with
  | none => simp [hm]
  | some marker => simp [hm]

theorem visible_append_singleton :
    lexicon.visible (lines ++ [line]) = lexicon.visible lines ++
      if lexicon.shows lines line then [(line, lines.length + 1)] else [] := by
  have hbefore : ∀ p ∈ lines.zipIdx 1,
      lexicon.shows ((lines ++ [line]).take (p.2 - 1)) p.1 =
        lexicon.shows (lines.take (p.2 - 1)) p.1 := by
    rintro ⟨l, number⟩ hp
    obtain ⟨-, hlt, -⟩ := List.mem_zipIdx hp
    have hle : number - 1 ≤ lines.length := by omega
    simp only [List.take_append_of_le_length hle]
  have hlast : (lines ++ [line]).take (lines.length + 1 - 1) = lines := by
    rw [Nat.add_sub_cancel, List.take_left]
  unfold visible
  rw [List.zipIdx_append, List.filter_append, List.filter_congr hbefore, Nat.add_comm 1 lines.length]
  simp only [List.zipIdx_cons, List.zipIdx_nil, List.filter_cons, List.filter_nil, hlast]

end

end Lexicon

namespace Scanner

variable {s : Scanner} {state : ScanState} {line : Text}

theorem stateAfter_append_singleton (s : Scanner) (state : ScanState) (lines : List Text)
    (line : Text) :
    s.stateAfter state (lines ++ [line]) = (s.scanLine (s.stateAfter state lines) line).state := by
  rw [stateAfter_append]
  rfl

theorem tagsFrom_append_singleton (s : Scanner) (state : ScanState) (lines : List Text)
    (line : Text) :
    s.tagsFrom state (lines ++ [line]) =
      s.tagsFrom state lines ++ (s.scanLine (s.stateAfter state lines) line).tag.toList := by
  rw [tagsFrom_append, tagsFrom_cons]
  exact congrArg _ (List.append_nil _)

/-! ## The mode -/

theorem mode_scanLine (s : Scanner) (state : ScanState) (line : Text) :
    (s.scanLine state line).state.mode =
      match s.lexicon.marker? line with
      | some .commentStart => .comment
      | some .commentEnd => .code
      | none => state.mode := by
  unfold scanLine
  cases s.lexicon.marker? line with
  | some marker => cases marker <;> rfl
  | none =>
    cases hmode : state.mode with
    | comment => rfl
    | code => rfl

/-- **A scan ends in a comment** exactly if the last marker starts one. -/
theorem mode_stateAfter_eq_comment_iff (s : Scanner) (lines : List Text) :
    (s.stateAfter {} lines).mode = .comment ↔
      s.lexicon.lastMarker? lines = some .commentStart := by
  induction lines using List.reverseRecOn with
  | nil =>
    constructor
    · intro hmode
      cases hmode
    · intro hmarker
      cases hmarker
  | append_singleton lines line ih =>
    rw [stateAfter_append_singleton, mode_scanLine, Lexicon.lastMarker?_append_singleton]
    cases s.lexicon.marker? line with
    | some marker => cases marker <;> simp
    | none => simpa using ih

theorem mode_stateAfter_of_shows {lines : List Text} (h : s.lexicon.shows lines line = true) :
    s.lexicon.marker? line = none ∧ (s.stateAfter {} lines).mode = .code := by
  unfold Lexicon.shows at h
  simp only [Bool.and_eq_true, Option.isNone_iff_eq_none, bne_iff_ne] at h
  obtain ⟨hmarker, hlast⟩ := h
  refine ⟨hmarker, ?_⟩
  cases hmode : (s.stateAfter {} lines).mode with
  | code => rfl
  | comment => exact absurd ((mode_stateAfter_eq_comment_iff s lines).1 hmode) hlast

/-! ## Hidden lines -/

theorem scanLine_of_hidden (h : s.lexicon.marker? line ≠ none ∨ state.mode = .comment) :
    (s.scanLine state line).state.scopes = state.scopes ∧ (s.scanLine state line).tag = none := by
  unfold scanLine
  cases hm : s.lexicon.marker? line with
  | some marker => cases marker <;> exact ⟨rfl, rfl⟩
  | none =>
    have hmode : state.mode = .comment := h.resolve_left (fun hne => hne hm)
    simp only [hmode, and_self]

theorem hidden_of_not_shows {lines : List Text} (h : ¬ s.lexicon.shows lines line = true) :
    s.lexicon.marker? line ≠ none ∨ (s.stateAfter {} lines).mode = .comment := by
  unfold Lexicon.shows at h
  simp only [Bool.and_eq_true, Option.isNone_iff_eq_none, bne_iff_ne, not_and, not_not] at h
  by_cases hm : s.lexicon.marker? line = none
  · exact Or.inr ((mode_stateAfter_eq_comment_iff s lines).2 (h hm))
  · exact Or.inl hm

/-! ## Runs -/

/-- The lines leave the scopes that the visible ones alone leave, and give their tags, on the lines
where they stood among all lines. -/
structure AgreesOnVisible (s : Scanner) (lines : List Text) : Prop where
  scopes : (s.stateAfter {} lines).scopes =
    (s.stateAfter {} (s.lexicon.visibleLines lines)).scopes
  /-- The visible lines alone are all code. -/
  mode : (s.stateAfter {} (s.lexicon.visibleLines lines)).mode = .code
  tags : (s.scanLines (s.lexicon.visibleLines lines)).map
    (Tag.original? (s.lexicon.visible lines)) = (s.scanLines lines).map some

/-- More visible lines at the end do not change where the earlier ones stood. -/
theorem map_original?_append {visible : List (Text × Nat)} {ts us : List Tag}
    (h : ts.map (Tag.original? visible) = us.map some) (more : List (Text × Nat)) :
    ts.map (Tag.original? (visible ++ more)) = us.map some := by
  rw [← h]
  apply List.map_congr_left
  intro t ht
  have hmem : t.original? visible ∈ us.map some := by
    rw [← h]
    exact List.mem_map_of_mem ht
  obtain ⟨u, -, hu⟩ := List.mem_map.1 hmem
  obtain ⟨p, hp, -⟩ := Option.map_eq_some_iff.1 hu.symm
  have hlt : t.line - 1 < visible.length := (List.getElem?_eq_some_iff.1 hp).1
  unfold Tag.original?
  rw [List.getElem?_append_left hlt]

namespace AgreesOnVisible

variable {lines : List Text} (h : s.AgreesOnVisible lines)

include h

theorem append_hidden (hline : ¬ s.lexicon.shows lines line = true) :
    s.AgreesOnVisible (lines ++ [line]) := by
  obtain ⟨hscopes, htag⟩ := scanLine_of_hidden (hidden_of_not_shows hline)
  have hvisible : s.lexicon.visible (lines ++ [line]) = s.lexicon.visible lines := by
    rw [Lexicon.visible_append_singleton, if_neg hline, List.append_nil]
  have hshown : s.lexicon.visibleLines (lines ++ [line]) = s.lexicon.visibleLines lines :=
    congrArg (List.map Prod.fst) hvisible
  refine ⟨?_, ?_, ?_⟩
  · rw [stateAfter_append_singleton, hscopes, hshown]
    exact h.scopes
  · rw [hshown]
    exact h.mode
  · have htags : s.scanLines (lines ++ [line]) = s.scanLines lines := by
      unfold scanLines
      rw [tagsFrom_append_singleton, htag]
      exact List.append_nil _
    rw [hvisible, hshown, htags]
    exact h.tags

theorem append_visible (hline : s.lexicon.shows lines line = true) :
    s.AgreesOnVisible (lines ++ [line]) := by
  obtain ⟨hmarker, hmode⟩ := mode_stateAfter_of_shows hline
  have hvisible : s.lexicon.visible (lines ++ [line]) =
      s.lexicon.visible lines ++ [(line, lines.length + 1)] := by
    rw [Lexicon.visible_append_singleton, if_pos hline]
  have hshown : s.lexicon.visibleLines (lines ++ [line]) =
      s.lexicon.visibleLines lines ++ [line] := by
    unfold Lexicon.visibleLines
    rw [hvisible, List.map_append]
    rfl
  -- the two scans differ in the number of the line only
  have hstate : s.stateAfter {} lines =
      { s.stateAfter {} (s.lexicon.visibleLines lines) with line := lines.length } := by
    calc s.stateAfter {} lines
        = ⟨(s.stateAfter {} lines).line, (s.stateAfter {} lines).scopes,
            (s.stateAfter {} lines).mode⟩ := rfl
      _ = ⟨lines.length, (s.stateAfter {} (s.lexicon.visibleLines lines)).scopes,
            (s.stateAfter {} (s.lexicon.visibleLines lines)).mode⟩ := by
          rw [line_stateAfter_start, h.scopes, hmode, h.mode]
  obtain ⟨hnext, htag⟩ := scanLine_renumbered s
    (s.stateAfter {} (s.lexicon.visibleLines lines)) lines.length line
  rw [← hstate] at hnext htag
  refine ⟨?_, ?_, ?_⟩
  · rw [hshown, stateAfter_append_singleton, stateAfter_append_singleton, hnext]
  · rw [hshown, stateAfter_append_singleton, mode_scanLine, hmarker]
    exact h.mode
  · unfold scanLines
    rw [hshown, tagsFrom_append_singleton, tagsFrom_append_singleton, List.map_append,
      List.map_append, htag, hvisible]
    congr 1
    · exact map_original?_append h.tags _
    · cases ht : (s.scanLine (s.stateAfter {} (s.lexicon.visibleLines lines)) line).tag with
      | none => rfl
      | some t =>
        have hplace : t.line - 1 = (s.lexicon.visible lines).length := by
          rw [line_of_scanLine_tag ht, line_stateAfter_start, Nat.add_sub_cancel]
          exact List.length_map _
        simp [Tag.original?, hplace]

end AgreesOnVisible

/-- **Hidden lines do nothing but count.** -/
theorem agreesOnVisible (s : Scanner) (lines : List Text) : s.AgreesOnVisible lines := by
  induction lines using List.reverseRecOn with
  | nil => exact ⟨rfl, rfl, rfl⟩
  | append_singleton lines line ih =>
    by_cases hline : s.lexicon.shows lines line = true
    · exact ih.append_visible hline
    · exact ih.append_hidden hline

/-! ## Top theorem -/

/-- **Comments of several lines are inert.** A marker is a line that starts with `=begin` or `=end` as
a token. A scan ends in a comment exactly if the last marker is a `=begin`. It leaves the scopes that a
scan of the visible lines alone leaves, and its tags are the tags of that scan, each on the line where
its line stood among all lines. -/
theorem comments_inert (config : Config) (lines : List Text) :
    let s : Scanner := { config }
    let visible := Lexicon.julia.visible lines
    ((s.stateAfter {} lines).mode = .comment ↔
        Lexicon.julia.lastMarker? lines = some .commentStart) ∧
      (s.stateAfter {} lines).scopes = (s.stateAfter {} (Lexicon.julia.visibleLines lines)).scopes ∧
      (s.scanLines (Lexicon.julia.visibleLines lines)).map (Tag.original? visible) =
        (s.scanLines lines).map some ∧
      (∀ line, Lexicon.julia.marker? line = some .commentStart ↔
        ∃ behind, line = "=begin".toList ++ behind ∧ Text.endsToken behind = true) ∧
      ∀ line, Lexicon.julia.marker? line = some .commentEnd ↔
        ∃ behind, line = "=end".toList ++ behind ∧ Text.endsToken behind = true := by
  intro s visible
  have hagree := s.agreesOnVisible lines
  refine ⟨mode_stateAfter_eq_comment_iff s lines, hagree.scopes, hagree.tags, ?_, ?_⟩
  · intro line
    exact Lexicon.marker?_eq_start_iff
  · intro line
    exact Lexicon.marker?_eq_end_iff Lexicon.julia_regular (by decide)

/-- Comments that start twice and end once, with definitions and closing words in them, and a marker
that is indented and therefore code. -/
example :
    let lines := ["=begin", "module A", "=begin x", "end", "=end", "module B", " =begin", "=end(",
      "type T"].map String.toList
    Lexicon.julia.visible lines =
        [("module B".toList, 6), (" =begin".toList, 7), ("type T".toList, 9)] ∧
      scanLines {} lines = [⟨"B".toList, .moduleDef, ⟨6, 8⟩, none⟩,
        ⟨"T".toList, .typeDef, ⟨9, 6⟩, some (.ofPath "B".toList)⟩] := by
  decide +kernel

end Scanner

end Tagline
