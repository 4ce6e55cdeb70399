/-!
# Text

A text is the list of its characters. Offsets into a text count the bytes of its UTF-8 form, so a
text can be cut at an offset only where a character ends:

    splitAtByte? (p ++ r) (byteSize p) = some (p, r)               (splitAtByte?_byteSize_append)

and every cut has this form (eq_append_of_splitAtByte?).
-/

namespace Tagline

/-- A text, as the list of its characters. -/
abbrev Text := List Char

namespace Text

/-- The number of bytes of the UTF-8 form of a text. -/
def byteSize : Text → Nat
  | [] => 0
  | c :: t => c.utf8Size + byteSize t

/-- The two parts of a text before and after a byte offset; `none` if the offset lies past the end
or inside a character. -/
def splitAtByte? : Text → Nat → Option (Text × Text)
  | t, 0 => some ([], t)
  | [], _ + 1 => none
  | c :: t, n + 1 =>
    if c.utf8Size ≤ n + 1 then
      (splitAtByte? t (n + 1 - c.utf8Size)).map fun (before, after) => (c :: before, after)
    else none

/-! ## Lemmas -/

@[simp] theorem byteSize_nil : byteSize [] = 0 := rfl

@[simp] theorem byteSize_cons (c : Char) (t : Text) :
    byteSize (c :: t) = c.utf8Size + byteSize t := rfl

@[simp] theorem byteSize_append (s t : Text) : byteSize (s ++ t) = byteSize s + byteSize t := by
  induction s with
  | nil => simp
  | cons c s ih => simp [ih, Nat.add_assoc]

@[simp] theorem splitAtByte?_zero (t : Text) : splitAtByte? t 0 = some ([], t) := by
  cases t <;> rfl

theorem splitAtByte?_byteSize_append (p r : Text) :
    splitAtByte? (p ++ r) (byteSize p) = some (p, r) := by
  induction p with
  | nil => simp
  | cons c p ih =>
    have hc : 0 < c.utf8Size := c.utf8Size_pos
    obtain ⟨n, hn⟩ : ∃ n, c.utf8Size + byteSize p = n + 1 := ⟨c.utf8Size + byteSize p - 1, by omega⟩
    have hrest : n + 1 - c.utf8Size = byteSize p := by omega
    simp only [List.cons_append, byteSize_cons, hn, splitAtByte?, hrest, ih, Option.map_some]
    rw [if_pos (by omega)]

theorem eq_append_of_splitAtByte? {t p r : Text} {n : Nat} (h : splitAtByte? t n = some (p, r)) :
    t = p ++ r ∧ byteSize p = n := by
  induction t generalizing n p with
  | nil =>
    cases n with
    | zero => simp_all [splitAtByte?]
    | succ n => simp [splitAtByte?] at h
  | cons c t ih =>
    cases n with
    | zero => simp_all [splitAtByte?]
    | succ n =>
      simp only [splitAtByte?] at h
      split at h
      · obtain ⟨⟨q, s⟩, hq, hpr⟩ := Option.map_eq_some_iff.1 h
        simp only [Prod.mk.injEq] at hpr
        obtain ⟨rfl, rfl⟩ := hpr
        obtain ⟨rfl, hsize⟩ := ih hq
        refine ⟨rfl, ?_⟩
        rw [byteSize_cons]
        omega
      · simp at h

end Text

end Tagline
