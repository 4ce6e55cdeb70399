import Tagline.Proofs.Names
import Tagline.Proofs.Runs

/-!
# What is reported

Which kinds are reported decides about the tags and about nothing else. A line leaves the same state
under every configuration (scanLine_state_eq), and its tag is the one that is found when all kinds
are reported, if its kind is enabled (scanLine_tag_eq_filter). Along a run

    tagsFrom c state lines = (tagsFrom {} state lines).filter (c.isEnabled ·.kind)
                                                                   (tagsFrom_eq_filter)

The kind that decides is the one that was read: a function with a receiver is a singleton method.
-/

namespace Tagline.Scanner

section
variable (c d : Config) (lexicon : Lexicon) (state : ScanState)

/-! ## One line -/

/-- The configuration does not touch the state. -/
theorem scanLine_state_eq (line : Text) :
    (scanLine ⟨c, lexicon⟩ state line).state = (scanLine ⟨d, lexicon⟩ state line).state := by
  unfold scanLine
  cases lexicon.marker? line with
  | some marker => cases marker <;> rfl
  | none => cases state.mode <;> rfl

theorem tag?_eq_filter (number : Nat) (line : Text) (scopes : ScopeStack) (heading : Heading) :
    tag? ⟨c, lexicon⟩ number line scopes heading =
      (tag? ⟨{}, lexicon⟩ number line scopes heading).filter fun t => c.isEnabled t.kind := by
  cases heading with
  | unnamed kind => rfl
  | named kind name offset =>
    have hall : Config.isEnabled {} kind = true := rfl
    simp only [tag?, hall, if_true, Option.filter_some]

/-- A tag is reported if its kind is. -/
theorem scanLine_tag_eq_filter (line : Text) :
    (scanLine ⟨c, lexicon⟩ state line).tag =
      (scanLine ⟨{}, lexicon⟩ state line).tag.filter fun t => c.isEnabled t.kind := by
  unfold scanLine
  cases lexicon.marker? line with
  | some marker => cases marker <;> rfl
  | none =>
    cases state.mode with
    | comment => rfl
    | code =>
      show (CodeLine.read lexicon line).heading.bind _ =
        ((CodeLine.read lexicon line).heading.bind _).filter _
      cases (CodeLine.read lexicon line).heading with
      | none => rfl
      | some heading => exact tag?_eq_filter c lexicon _ line _ heading

/-! ## Runs -/

theorem map_state_results_eq (lines : List Text) :
    (results ⟨c, lexicon⟩ state lines).map (·.state) =
      (results ⟨d, lexicon⟩ state lines).map (·.state) := by
  induction lines generalizing state with
  | nil => rfl
  | cons line lines ih =>
    have hstate := scanLine_state_eq c d lexicon state line
    simp only [results, List.map_cons, hstate, ih]

theorem tagsFrom_eq_filter (lines : List Text) :
    tagsFrom ⟨c, lexicon⟩ state lines =
      (tagsFrom ⟨{}, lexicon⟩ state lines).filter fun t => c.isEnabled t.kind := by
  induction lines generalizing state with
  | nil => rfl
  | cons line lines ih =>
    have hstate := scanLine_state_eq c {} lexicon state line
    have htag := scanLine_tag_eq_filter c lexicon state line
    rw [tagsFrom_cons, tagsFrom_cons, List.filter_append, htag, Option.toList_filter, hstate, ih]

end

/-! ## Top theorem -/

/-- The definition word of a line that gives a tag, and the text behind it. -/
theorem exists_definition_of_tag {s : Scanner} (h : s.lexicon.Regular) {state : ScanState}
    {line : Text} {t : Tag} (ht : (s.scanLine state line).tag = some t) :
    ∃ word kind behind, (word, kind) ∈ s.lexicon.definitions ∧
      line.dropWhile Text.isBlank = word ++ behind ∧ behind.head?.any Text.isBlank = true ∧
      t.kind = kind.effective s.lexicon.operators behind := by
  obtain ⟨-, -, kind, name, offset, hh, -, rfl⟩ := scanLine_tag_eq_some ht
  obtain ⟨word, wordKind, d, hmem, heat, hblank, hname, -⟩ :=
    Lexicon.readHeading_eq_named (CodeLine.readHeading_of_heading h hh)
  obtain ⟨hrest, -, -⟩ := Cursor.eat?_eq_some.1 heat
  exact ⟨word, wordKind, d.rest, hmem, hrest, hblank, Kind.eq_effective_of_readName hname⟩

/-- **Disabling kinds only filters.** The states behind all lines do not depend on the configuration,
and the tags are those found when all kinds are reported, without those of a disabled kind. The kind
of a tag is that of the definition word of its line, or singleton method for a function with a
receiver. -/
theorem disabling_filters (c d : Config) (state : ScanState) (lines : List Text) :
    (results { config := c } state lines).map (·.state) =
        (results { config := d } state lines).map (·.state) ∧
      tagsFrom { config := c } state lines =
        (tagsFrom { config := {} } state lines).filter (fun t => c.isEnabled t.kind) ∧
      ∀ (i : Nat) (t : Tag), (results { config := {} } state lines)[i]?.bind LineResult.tag = some t →
        ∃ line word kind behind, lines[i]? = some line ∧
          (word, kind) ∈ Lexicon.julia.definitions ∧
          line.dropWhile Text.isBlank = word ++ behind ∧ behind.head?.any Text.isBlank = true ∧
          t.kind = kind.effective Lexicon.julia.operators behind := by
  refine ⟨map_state_results_eq c d .julia state lines, tagsFrom_eq_filter c .julia state lines, ?_⟩
  intro i t ht
  rw [getElem?_results] at ht
  obtain ⟨r, hr, ht⟩ := Option.bind_eq_some_iff.1 ht
  obtain ⟨line, hline, rfl⟩ := Option.map_eq_some_iff.1 hr
  obtain ⟨word, kind, behind, hdef⟩ := exists_definition_of_tag Lexicon.julia_regular ht
  exact ⟨line, word, kind, behind, hline, hdef⟩

end Tagline.Scanner
