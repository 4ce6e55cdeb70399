import Tagline.Proofs.EncodedTexts

/-!
# Bytes between characters

A text can be cut at an offset into its bytes where a character starts or the text ends. One byte is
enough to see that, since inside a character no byte looks like the first one of a character. So
cutting the bytes and reading both parts is cutting the text

    cut? (encode t) n = splitAtByte? t n                           (cut?_encode)

and the bytes of a text begin with those of another one only where the text begins with it:

    encode s <+: encode t ↔ s <+: t                                (encode_isPrefix_iff)
-/

namespace Tagline.Utf8

/-! ## Definitions -/

/-- Whether a character starts at an offset into the bytes of a text, or the text ends there. -/
def isBoundary (bytes : List UInt8) (n : Nat) : Bool :=
  n == bytes.length || bytes[n]?.any fun b => b.IsUTF8FirstByte

/-- The texts before and behind an offset into some bytes; `none` if no character starts there. -/
def cut? (bytes : List UInt8) (n : Nat) : Option (Text × Text) :=
  if isBoundary bytes n then do
    let before ← decode? (bytes.take n)
    let behind ← decode? (bytes.drop n)
    return (before, behind)
  else none

/-! ## Boundaries -/

theorem isBoundary_append (p bytes : List UInt8) (n : Nat) :
    isBoundary (p ++ bytes) (p.length + n) = isBoundary bytes n := by
  unfold isBoundary
  rw [List.length_append, List.getElem?_append_right (Nat.le_add_right _ _), Nat.add_sub_cancel_left]
  congr 1
  by_cases hn : n = bytes.length
  · simp [hn]
  · simp [hn]

/-- The end of a text is a boundary, and so is its start. -/
theorem isBoundary_zero_encode (t : Text) : isBoundary (encode t) 0 = true := by
  cases t with
  | nil => rfl
  | cons c t =>
    have hpos : 0 < (String.utf8EncodeChar c).length := by
      rw [String.length_utf8EncodeChar]
      exact c.utf8Size_pos
    have hfirst := UInt8.isUTF8FirstByte_getElem_zero_utf8EncodeChar (c := c)
    unfold isBoundary
    rw [encode_cons, List.getElem?_append_left hpos, List.getElem?_eq_getElem hpos]
    simp [hfirst]

/-- Inside a character there is no boundary. -/
theorem isBoundary_inside (c : Char) (bytes : List UInt8) {n : Nat} (hpos : 0 < n)
    (hn : n < c.utf8Size) : isBoundary (String.utf8EncodeChar c ++ bytes) n = false := by
  have hlength : (String.utf8EncodeChar c).length = c.utf8Size := String.length_utf8EncodeChar c
  have hlt : n < (String.utf8EncodeChar c).length := by omega
  have hnot : ¬ (String.utf8EncodeChar c)[n].IsUTF8FirstByte := by
    rw [UInt8.isUTF8FirstByte_getElem_utf8EncodeChar]
    omega
  unfold isBoundary
  rw [List.getElem?_append_left hlt, List.getElem?_eq_getElem hlt, List.length_append]
  simp [hnot]
  omega

theorem isBoundary_encode (t : Text) (n : Nat) :
    isBoundary (encode t) n = (t.splitAtByte? n).isSome := by
  induction t generalizing n with
  | nil =>
    cases n with
    | zero => rfl
    | succ n => rfl
  | cons c t ih =>
    cases n with
    | zero => rw [isBoundary_zero_encode]; rfl
    | succ n =>
      rw [encode_cons, Text.splitAtByte?]
      by_cases hc : c.utf8Size ≤ n + 1
      · have hsum : n + 1 = (String.utf8EncodeChar c).length + (n + 1 - c.utf8Size) := by
          rw [String.length_utf8EncodeChar]
          omega
        rw [if_pos hc, Option.isSome_map, ← ih, hsum, isBoundary_append]
        congr 1
        rw [String.length_utf8EncodeChar]
        omega
      · rw [if_neg hc, isBoundary_inside c _ (Nat.succ_pos n) (by omega)]
        rfl

example : (List.range 6).map (isBoundary (encode "aσb".toList)) =
    [true, true, false, true, true, false] := by decide +kernel

/-! ## Cuts -/

theorem take_encode_append (p r : Text) : (encode (p ++ r)).take (Text.byteSize p) = encode p := by
  rw [encode_append, ← length_encode, List.take_left]

theorem drop_encode_append (p r : Text) : (encode (p ++ r)).drop (Text.byteSize p) = encode r := by
  rw [encode_append, ← length_encode, List.drop_left]

/-- **Cutting the bytes of a text** is cutting the text. -/
theorem cut?_encode (t : Text) (n : Nat) : cut? (encode t) n = t.splitAtByte? n := by
  unfold cut?
  rw [isBoundary_encode]
  cases hcut : t.splitAtByte? n with
  | none => rfl
  | some parts =>
    obtain ⟨p, r⟩ := parts
    obtain ⟨rfl, rfl⟩ := Text.eq_append_of_splitAtByte? hcut
    rw [take_encode_append, drop_encode_append, decode?_encode, decode?_encode]
    rfl

/-! ## Beginnings -/

/-- **The bytes of a text begin with those of another one** only where the text begins with it. -/
theorem encode_isPrefix_iff {s t : Text} : encode s <+: encode t ↔ s <+: t := by
  constructor
  · rintro ⟨behind, hbehind⟩
    have hs := decodeFrom_encode s behind
    have ht := decodeFrom_encode t []
    have hend : decodeFrom .boundary [] = [] := rfl
    rw [List.append_nil, ← hbehind, hs, hend, List.append_nil] at ht
    obtain ⟨u, v, rfl, hu, -⟩ := List.map_eq_append_iff.1 ht.symm
    rw [← (List.map_inj_right fun _ _ => Option.some.inj).1 hu]
    exact List.prefix_append u v
  · rintro ⟨behind, rfl⟩
    rw [encode_append]
    exact List.prefix_append _ _

end Tagline.Utf8
