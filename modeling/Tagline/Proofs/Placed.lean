import Tagline.Position
import Tagline.Proofs.Headings
import Tagline.Proofs.Names

/-!
# Places in a line

A cursor stands in a line if the line is what the cursor has passed, followed by what is left, and
its offset is the size of what it has passed. Every move keeps this. So the offset of a name is the
size of the text before it, and the name stands right there:

    (read lexicon line).heading = some (.named kind name offset) →
      line = before ++ (name ++ behind), byteSize before = offset  (exists_before_of_heading)
-/

namespace Tagline

/-- A cursor stands in a line. -/
def Cursor.StandsIn (line : Text) (c : Cursor) : Prop :=
  ∃ before, line = before ++ c.rest ∧ Text.byteSize before = c.offset

/-- A name that is read stands in a line at its offset. -/
def NameReading.StandsIn (line : Text) : NameReading → Prop
  | .anonymousClass => True
  | .named _ name offset =>
    ∃ before behind, line = before ++ (name ++ behind) ∧ Text.byteSize before = offset

/-! ## Moves -/

namespace Cursor.StandsIn

variable {line : Text} {c d : Cursor}

theorem ofLine (line : Text) : (Cursor.ofLine line).StandsIn line := ⟨[], rfl, rfl⟩

theorem skipWhile (hc : c.StandsIn line) (p : Char → Bool) : (c.skipWhile p).StandsIn line := by
  obtain ⟨before, hline, hsize⟩ := hc
  refine ⟨before ++ c.rest.takeWhile p, ?_, ?_⟩
  · rw [Cursor.skipWhile, List.append_assoc, List.takeWhile_append_dropWhile]
    exact hline
  · rw [Text.byteSize_append, hsize]
    rfl

theorem skipBlank (hc : c.StandsIn line) : c.skipBlank.StandsIn line := hc.skipWhile Text.isBlank

theorem bump (hc : c.StandsIn line) : c.bump.StandsIn line := by
  obtain ⟨before, hline, hsize⟩ := hc
  unfold Cursor.bump
  split
  · exact ⟨before, hline, hsize⟩
  · next a r hr =>
    refine ⟨before ++ [a], ?_, ?_⟩
    · rw [hline, hr]
      simp
    · rw [Text.byteSize_append, hsize]
      rfl

theorem eat? {literal : Text} (hc : c.StandsIn line) (hd : c.eat? literal = some d) :
    d.StandsIn line := by
  obtain ⟨before, hline, hsize⟩ := hc
  obtain ⟨hrest, -, hoffset⟩ := Cursor.eat?_eq_some.1 hd
  refine ⟨before ++ literal, ?_, ?_⟩
  · rw [hline, hrest, List.append_assoc]
  · rw [Text.byteSize_append, hsize, hoffset]

end Cursor.StandsIn

/-! ## Names -/

/-- A mark stands right behind its word. -/
theorem Cursor.exists_rest_of_mark {p q : Char → Bool} {c : Cursor} {mark : Char}
    (hmark : (c.skipWhile p).peek?.filter q = some mark) :
    ∃ tail, c.rest = (c.rest.takeWhile p ++ [mark]) ++ tail := by
  obtain ⟨hpeek, -⟩ := Option.filter_eq_some_iff.1 hmark
  obtain ⟨tail, htail⟩ := List.head?_eq_some_iff.1 hpeek
  refine ⟨tail, ?_⟩
  rw [List.append_assoc, List.singleton_append, ← htail]
  exact List.takeWhile_append_dropWhile.symm

section
variable {line : Text} {c : Cursor} {operators : List Text} (hc : c.StandsIn line)

include hc

theorem Cursor.StandsIn.named_of_rest {name behind : Text} (kind : Kind)
    (hrest : c.rest = name ++ behind) : (NameReading.named kind name c.offset).StandsIn line := by
  obtain ⟨before, hline, hsize⟩ := hc
  exact ⟨before, behind, by rw [hline, hrest], hsize⟩

theorem Kind.standsIn_readCallable (kind : Kind) :
    (kind.readCallable operators c).1.StandsIn line := by
  fun_induction readCallable kind operators c with
  | case1 kind c start operator behind ho =>
    obtain ⟨-, heat⟩ := Cursor.eatAny?_mem ho
    exact hc.skipBlank.named_of_rest kind (Cursor.eat?_eq_some.1 heat).1
  | case2 kind c start ho behind hdot ih =>
    exact ih ((hc.skipBlank.skipWhile Text.isWord).bump)
  | case3 kind c start ho word behind hdot mark hmark =>
    obtain ⟨tail, htail⟩ := Cursor.exists_rest_of_mark hmark
    exact hc.skipBlank.named_of_rest kind htail
  | case4 kind c start ho word behind hdot hmark =>
    exact hc.skipBlank.named_of_rest kind List.takeWhile_append_dropWhile.symm

theorem Kind.standsIn_readPlain (kind : Kind) : (kind.readPlain c).1.StandsIn line := by
  rw [Kind.readPlain_eq]
  split
  · trivial
  · exact hc.skipBlank.named_of_rest kind List.takeWhile_append_dropWhile.symm

theorem Kind.standsIn_readName (kind : Kind) : (kind.readName operators c).1.StandsIn line := by
  unfold readName
  split
  · exact Kind.standsIn_readCallable hc kind
  · exact Kind.standsIn_readPlain hc kind

end

/-- **The name of a definition stands at its offset.** -/
theorem CodeLine.exists_before_of_heading {lexicon : Lexicon} (h : lexicon.Regular)
    {line name : Text} {kind : Kind} {offset : Nat}
    (hh : (CodeLine.read lexicon line).heading = some (.named kind name offset)) :
    ∃ before behind, line = before ++ (name ++ behind) ∧ Text.byteSize before = offset := by
  obtain ⟨word, wordKind, d, -, heat, -, hread, -⟩ :=
    Lexicon.readHeading_eq_named (CodeLine.readHeading_of_heading h hh)
  have hd : d.StandsIn line := (Cursor.StandsIn.ofLine line).skipBlank.eat? heat
  have hname := @Kind.standsIn_readName line d lexicon.operators hd wordKind
  rw [hread] at hname
  exact hname

end Tagline
