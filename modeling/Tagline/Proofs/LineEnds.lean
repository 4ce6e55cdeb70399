import Tagline.Proofs.Padding
import Tagline.Text.Lines

/-!
# Ends of lines

The two ways to drop the end of a line differ in carriage returns and newlines only, and these are
padding:

    dropLineEnd line = trimLineEnd line ++ v, with padding v       (exists_dropLineEnd_eq)

Where a list is cut is decided by its first end: what lies before it is one piece, and what lies
behind it is cut on its own (cutAfter_append_cons).
-/

namespace Tagline.Text

def isLineEnd (c : Char) : Bool := c == '\n' || c == '\r'

/-! ## Two ways to drop the end of a line -/

theorem isPadding_of_isLineEnd {v : Text} (hv : ∀ a ∈ v, isLineEnd a = true) : IsPadding v := by
  intro a ha
  have hmem : a = '\n' ∨ a = '\r' := by simpa [isLineEnd] using hv a ha
  rcases hmem with rfl | rfl
  · decide
  · decide

theorem exists_trimLineEnd (t : Text) :
    ∃ v, (∀ a ∈ v, isLineEnd a = true) ∧ t = trimLineEnd t ++ v := by
  refine ⟨(t.reverse.takeWhile isLineEnd).reverse, ?_, ?_⟩
  · intro a ha
    exact List.mem_takeWhile_imp (List.mem_reverse.1 ha)
  · show t = (t.reverse.dropWhile isLineEnd).reverse ++ (t.reverse.takeWhile isLineEnd).reverse
    rw [← List.reverse_append, List.takeWhile_append_dropWhile, List.reverse_reverse]

theorem trimLineEnd_append {v : Text} (hv : ∀ a ∈ v, isLineEnd a = true) (t : Text) :
    trimLineEnd (t ++ v) = trimLineEnd t := by
  have hrev : ∀ a ∈ v.reverse, isLineEnd a = true := fun a ha => hv a (List.mem_reverse.1 ha)
  show ((t ++ v).reverse.dropWhile isLineEnd).reverse = (t.reverse.dropWhile isLineEnd).reverse
  rw [List.reverse_append, List.dropWhile_append_of_pos hrev]

theorem exists_dropLineEnd (t : Text) :
    ∃ v, (∀ a ∈ v, isLineEnd a = true) ∧ t = dropLineEnd t ++ v := by
  unfold dropLineEnd
  split
  · next r hr =>
    refine ⟨['\r', '\n'], by simp [isLineEnd], ?_⟩
    rw [← List.reverse_reverse t, hr]
    simp
  · next r _ hr =>
    refine ⟨['\n'], by simp [isLineEnd], ?_⟩
    rw [← List.reverse_reverse t, hr]
    simp
  · exact ⟨[], by simp, (List.append_nil t).symm⟩

/-- What the first way leaves of the end of a line is padding. -/
theorem exists_dropLineEnd_eq (line : Text) :
    ∃ v, IsPadding v ∧ dropLineEnd line = trimLineEnd line ++ v := by
  obtain ⟨w, hw, hline⟩ := exists_dropLineEnd line
  obtain ⟨v, hv, hdrop⟩ := exists_trimLineEnd (dropLineEnd line)
  have htrim : trimLineEnd line = trimLineEnd (dropLineEnd line) :=
    calc trimLineEnd line
        = trimLineEnd (dropLineEnd line ++ w) := by rw [← hline]
      _ = trimLineEnd (dropLineEnd line) := trimLineEnd_append hw _
  refine ⟨v, isPadding_of_isLineEnd hv, ?_⟩
  rw [htrim]
  exact hdrop

/-! ## Cutting behind the ends -/

section
variable {α : Type} [DecidableEq α] {a : α} {l : List α} (hl : a ∉ l)

include hl

/-- Without an end there is one piece. -/
theorem cutAfter_of_not_mem : cutAfter (· == a) l = if l = [] then [] else [l] := by
  induction l with
  | nil => rfl
  | cons b l ih =>
    rw [List.mem_cons, not_or] at hl
    have hb : (b == a) = false := beq_eq_false_iff_ne.2 (Ne.symm hl.1)
    rw [if_neg (List.cons_ne_nil b l), cutAfter, hb, ih hl.2]
    by_cases hnil : l = []
    · rw [if_pos hnil, hnil]
      rfl
    · rw [if_neg hnil]
      rfl

/-- **The first end** closes the first piece. -/
theorem cutAfter_append_cons (m : List α) :
    cutAfter (· == a) (l ++ a :: m) = (l ++ [a]) :: cutAfter (· == a) m := by
  induction l with
  | nil =>
    rw [List.nil_append, cutAfter, beq_self_eq_true, if_pos rfl]
    rfl
  | cons b l ih =>
    rw [List.mem_cons, not_or] at hl
    have hb : (b == a) = false := beq_eq_false_iff_ne.2 (Ne.symm hl.1)
    rw [List.cons_append, cutAfter, hb, ih hl.2]
    rfl

end

end Tagline.Text
