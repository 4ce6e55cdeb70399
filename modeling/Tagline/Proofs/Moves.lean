import Tagline.Proofs.Slices

/-!
# Moves of a cursor

Whatever moves a cursor makes in a line, and in whatever order, it ends at a place between two
characters of the line: its offset is not past the end, no character is cut there, and the line is the
text of the bytes up to the offset, followed by what is left (StandsIn.onBoundary). A move never goes
back (offset_le_move), and one that eats nothing stays where it is (move_of_isRefusal). A slicer makes
the same moves and never fails:

    moveAll moves (c.slicer line) =
      some ((c.moveAll moves).1, (c.moveAll moves).2.slicer line)  (follows_moveAll)
-/

namespace Tagline

/-! ## Definitions -/

inductive Move where
  | peek
  | bump
  /-- Passes the characters of a class. If the class changes on the way, this is a number of bumps. -/
  | skipWhile (p : Char → Bool)
  | skipBlank
  | skipToEnd
  | eat (literal : Text)
  | eatAny (literals : List Text)

/-- What a move tells. -/
inductive Answer where
  | nothing
  | character (which : Option Char)
  /-- Whether the literal was eaten. -/
  | eaten (done : Bool)
  /-- Which literal was eaten. -/
  | literal (which : Option Text)
deriving DecidableEq, Repr

/-- Whether nothing was eaten. -/
def Answer.isRefusal : Answer → Bool
  | .eaten done => !done
  | .literal which => which.isNone
  | _ => false

namespace Cursor

def move (c : Cursor) : Move → Answer × Cursor
  | .peek => (.character c.peek?, c)
  | .bump => (.character c.peek?, c.bump)
  | .skipWhile p => (.nothing, c.skipWhile p)
  | .skipBlank => (.nothing, c.skipBlank)
  | .skipToEnd => (.nothing, c.skipToEnd)
  | .eat literal => (.eaten (c.eat? literal).isSome, (c.eat? literal).getD c)
  | .eatAny literals =>
    (.literal ((c.eatAny? literals).map (·.1)), ((c.eatAny? literals).map (·.2)).getD c)

def moveAll (c : Cursor) : List Move → List Answer × Cursor
  | [] => ([], c)
  | m :: moves => ((c.move m).1 :: ((c.move m).2.moveAll moves).1, ((c.move m).2.moveAll moves).2)

end Cursor

namespace Slicing

def move : Move → Slicing Answer
  | .peek => return .character (← peek)
  | .bump => return .character (← bump)
  | .skipWhile p => do
    skipWhile p
    return .nothing
  | .skipBlank => do
    skipBlank
    return .nothing
  | .skipToEnd => do
    skipToEnd
    return .nothing
  | .eat literal => return .eaten (← eat literal)
  | .eatAny literals => return .literal (← eatAny literals)

def moveAll : List Move → Slicing (List Answer)
  | [] => return []
  | m :: moves => return (← move m) :: (← moveAll moves)

end Slicing

/-! ## Slicers -/

namespace Slicing

variable {line : Text} {c : Cursor}

theorem follows_move (m : Move) (hc : c.StandsIn line) :
    Follows line (move m) c (c.move m).1 (c.move m).2 := by
  cases m with
  | peek => exact (follows_peek hc).bind (.pure hc _)
  | bump => exact (follows_bump hc).bind (.pure hc.bump _)
  | skipWhile p => exact (follows_skipWhile p hc).bind (.pure (hc.skipWhile p) _)
  | skipBlank => exact (follows_skipBlank hc).bind (.pure hc.skipBlank _)
  | skipToEnd =>
    have hend := follows_skipToEnd hc
    exact hend.bind (.pure hend.standsIn _)
  | eat literal =>
    have heat := follows_eat literal hc
    exact heat.bind (.pure heat.standsIn _)
  | eatAny literals =>
    have heat := follows_eatAny literals hc
    exact heat.bind (.pure heat.standsIn _)

theorem follows_moveAll (moves : List Move) (hc : c.StandsIn line) :
    Follows line (moveAll moves) c (c.moveAll moves).1 (c.moveAll moves).2 := by
  induction moves generalizing c with
  | nil => exact .pure hc []
  | cons m moves ih =>
    have hm := follows_move m hc
    have hmoves := ih hm.standsIn
    exact hm.bind (hmoves.bind (.pure hmoves.standsIn _))

end Slicing

/-! ## Places -/

namespace Cursor

/-- A cursor stands between two characters of a line, or at one of its ends. -/
structure OnBoundary (line : Text) (c : Cursor) : Prop where
  offset_le : c.offset ≤ Text.byteSize line
  isBoundary : Utf8.isBoundary (Utf8.encode line) c.offset = true
  /-- The line is the text of the bytes up to the offset, and then what is left. -/
  exists_cut? : ∃ before, Utf8.cut? (Utf8.encode line) c.offset = some (before, c.rest) ∧
    line = before ++ c.rest

theorem StandsIn.onBoundary {line : Text} {c : Cursor} (hc : c.StandsIn line) : c.OnBoundary line := by
  have hcut := hc.exists_cut?
  obtain ⟨before, hline, hsize⟩ := hc
  refine ⟨?_, ?_, hcut⟩
  · rw [hline, Text.byteSize_append]
    omega
  · rw [Utf8.isBoundary_encode, hline, ← hsize, Text.splitAtByte?_byteSize_append]
    rfl

theorem offset_le_bump (c : Cursor) : c.offset ≤ c.bump.offset := by
  unfold bump
  split
  · exact Nat.le_refl _
  · exact Nat.le_add_right _ _

theorem offset_le_eat? {literal : Text} {c d : Cursor} (hd : c.eat? literal = some d) :
    c.offset ≤ d.offset := by
  obtain ⟨-, -, hoffset⟩ := eat?_eq_some.1 hd
  omega

/-- **A move goes forward.** -/
theorem offset_le_move (c : Cursor) (m : Move) : c.offset ≤ (c.move m).2.offset := by
  cases m with
  | peek => exact Nat.le_refl _
  | bump => exact c.offset_le_bump
  | skipWhile p => exact Nat.le_add_right _ _
  | skipBlank => exact Nat.le_add_right _ _
  | skipToEnd => exact Nat.le_add_right _ _
  | eat literal =>
    show c.offset ≤ ((c.eat? literal).getD c).offset
    cases hd : c.eat? literal with
    | none => exact Nat.le_refl _
    | some d => exact offset_le_eat? hd
  | eatAny literals =>
    show c.offset ≤ (((c.eatAny? literals).map (·.2)).getD c).offset
    cases hd : c.eatAny? literals with
    | none => exact Nat.le_refl _
    | some found => exact offset_le_eat? (eatAny?_mem hd).2

/-- A move that eats nothing leaves the cursor where it is. -/
theorem move_of_isRefusal {c : Cursor} {m : Move} (hm : (c.move m).1.isRefusal = true) :
    (c.move m).2 = c := by
  cases m with
  | peek => rfl
  | bump => simp [move, Answer.isRefusal] at hm
  | skipWhile p => simp [move, Answer.isRefusal] at hm
  | skipBlank => simp [move, Answer.isRefusal] at hm
  | skipToEnd => simp [move, Answer.isRefusal] at hm
  | eat literal =>
    have hnone : c.eat? literal = none := by simpa [move, Answer.isRefusal] using hm
    simp [move, hnone]
  | eatAny literals =>
    have hnone : c.eatAny? literals = none := by simpa [move, Answer.isRefusal] using hm
    simp [move, hnone]

end Cursor

end Tagline
