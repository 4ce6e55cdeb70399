import Tagline.Text.Decimal

/-!
# Positions

A position is a line and a column, both counted from one. Columns count characters, while a cursor
counts bytes, so `inLine` looks at the text in front of an offset:

    inLine n (p ++ r) (byteSize p) = ⟨n, p.length + 1⟩             (inLine_byteSize_append)
-/

namespace Tagline

/-- A place in a text. Positions are ordered by line, then by column. -/
structure Position where
  line : Nat
  column : Nat
deriving DecidableEq, Repr, Ord

namespace Position

instance : LT Position := ltOfOrd

/-- The position of a byte offset in a line. Where no character starts at the offset, each byte
counts as a character. -/
def inLine (number : Nat) (line : Text) (offset : Nat) : Position :=
  match Text.splitAtByte? line offset with
  | some (before, _) => ⟨number, before.length + 1⟩
  | none => ⟨number, offset + 1⟩

def toText (p : Position) : Text :=
  "line: ".toList ++ Text.decimal p.line ++ ", column: ".toList ++ Text.decimal p.column

/-! ## Lemmas -/

theorem inLine_byteSize_append (n : Nat) (p r : Text) :
    inLine n (p ++ r) (Text.byteSize p) = ⟨n, p.length + 1⟩ := by
  unfold inLine
  rw [Text.splitAtByte?_byteSize_append]

@[simp] theorem line_inLine (n : Nat) (line : Text) (offset : Nat) :
    (inLine n line offset).line = n := by
  unfold inLine
  split <;> rfl

/-- Positions are ordered by line, then by column. -/
theorem lt_iff {p q : Position} :
    p < q ↔ p.line < q.line ∨ p.line = q.line ∧ p.column < q.column := by
  obtain ⟨pline, pcolumn⟩ := p
  obtain ⟨qline, qcolumn⟩ := q
  show ((compare pline qline).then ((compare pcolumn qcolumn).then .eq)) = .lt ↔ _
  rw [Ordering.then_eq_lt, Ordering.then_eq_lt, Nat.compare_eq_lt, Nat.compare_eq_lt,
    Nat.compare_eq_eq]
  simp

end Position

end Tagline
