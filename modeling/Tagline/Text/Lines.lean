import Tagline.Text.Basic

/-!
# Lines

A line ends with its newline, and the last line of a text may lack one. Cutting behind every newline
loses nothing:

    (cutAfter isEnd l).flatten = l                                 (flatten_cutAfter)

The end of a line is then dropped in one of two ways: `dropLineEnd` takes off one newline and the
carriage return before it, `trimLineEnd` takes off all of both.
-/

namespace Tagline.Text

/-- The pieces of a list when it is cut behind each member of the class `isEnd`. -/
def cutAfter {α : Type} (isEnd : α → Bool) : List α → List (List α)
  | [] => []
  | a :: l =>
    if isEnd a then [a] :: cutAfter isEnd l
    else
      match cutAfter isEnd l with
      | [] => [[a]]
      | piece :: pieces => (a :: piece) :: pieces

/-- A line without its newline and without the carriage return right before that newline. -/
def dropLineEnd (line : Text) : Text :=
  match line.reverse with
  | '\n' :: '\r' :: r => r.reverse
  | '\n' :: r => r.reverse
  | _ => line

/-- The lines of a text. The last line may lack a newline, and then keeps a carriage return. -/
def lines (t : Text) : List Text := (cutAfter (· == '\n') t).map dropLineEnd

/-- A line without all newlines and carriage returns at its end. -/
def trimLineEnd (line : Text) : Text :=
  (line.reverse.dropWhile fun c => c == '\n' || c == '\r').reverse

/-! ## Lemmas -/

theorem flatten_cutAfter {α : Type} (isEnd : α → Bool) (l : List α) :
    (cutAfter isEnd l).flatten = l := by
  induction l with
  | nil => rfl
  | cons a l ih =>
    simp only [cutAfter]
    split
    · simp [ih]
    · split
      · next h => rw [h] at ih; simp at ih; simp [← ih]
      · next h => rw [h] at ih; simp at ih; simp [← ih]

/-- A piece that ends the list closes what comes before it. -/
theorem cutAfter_append {α : Type} {isEnd : α → Bool} {a : α} (ha : isEnd a = true) (l m : List α) :
    cutAfter isEnd (l ++ a :: m) = cutAfter isEnd (l ++ [a]) ++ cutAfter isEnd m := by
  induction l with
  | nil => simp [cutAfter, ha]
  | cons b l ih =>
    simp only [List.cons_append, cutAfter, ih]
    split
    · simp
    · have hne : cutAfter isEnd (l ++ [a]) ≠ [] := by
        intro h
        have := flatten_cutAfter isEnd (l ++ [a])
        rw [h] at this
        simp at this
      obtain ⟨p, ps, hp⟩ := List.exists_cons_of_ne_nil hne
      simp [hp]

end Tagline.Text
