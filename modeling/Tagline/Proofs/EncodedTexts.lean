import Tagline.Proofs.LossyLines

/-!
# Encoded texts

The bytes of a text are read back as this text

    decode? (encode t) = some t                                    (decode?_encode)

because the bytes of one character lead the reader from the place between two characters back to it,
and complete this character and nothing else (decodeFrom_encodeChar). The reader restricts the second
byte so that longer forms and surrogates are refused, and the bytes of a character keep to that.
-/

namespace Tagline.Utf8

/-! ## Bytes -/

theorem toNat_ofNat_byte {n : Nat} (h : n < 256) : (UInt8.ofNat n).toNat = n := by
  rw [UInt8.toNat_ofNat']
  omega

theorem ofNat_eq_iff {n : Nat} (h : n < 256) {k : UInt8} : UInt8.ofNat n = k ↔ n = k.toNat := by
  rw [← UInt8.toNat_inj, toNat_ofNat_byte h]

/-! ## The first byte -/

section
variable {b : UInt8}

theorem not_lt_of_toNat_le {k : UInt8} (h : k.toNat ≤ b.toNat) : ¬ b < k :=
  UInt8.not_lt.2 (UInt8.le_iff_toNat_le.2 h)

theorem start_of_one (h : b.toNat < 0x80) : start b = (.boundary, [some (Char.ofNat b.toNat)]) := by
  have hlt : b < 0x80 := UInt8.lt_iff_toNat_lt.2 h
  unfold start
  rw [if_pos hlt]

theorem start_of_two (hlow : 0xC2 ≤ b.toNat) (hhigh : b.toNat < 0xE0) :
    start b = (.inside 0 0x80 0xBF (b.toNat - 0xC0), []) := by
  have h1 : ¬ b < 0x80 := not_lt_of_toNat_le (Nat.le_trans (by decide) hlow)
  have h2 : ¬ b < 0xC2 := not_lt_of_toNat_le hlow
  have h3 : b < 0xE0 := UInt8.lt_iff_toNat_lt.2 hhigh
  unfold start
  rw [if_neg h1, if_neg h2, if_pos h3]

theorem start_of_three (hlow : 0xE0 ≤ b.toNat) (hhigh : b.toNat < 0xF0) :
    start b = (.inside 1 (if b = 0xE0 then 0xA0 else 0x80) (if b = 0xED then 0x9F else 0xBF)
      (b.toNat - 0xE0), []) := by
  have h1 : ¬ b < 0x80 := not_lt_of_toNat_le (Nat.le_trans (by decide) hlow)
  have h2 : ¬ b < 0xC2 := not_lt_of_toNat_le (Nat.le_trans (by decide) hlow)
  have h3 : ¬ b < 0xE0 := not_lt_of_toNat_le hlow
  have h4 : b < 0xF0 := UInt8.lt_iff_toNat_lt.2 hhigh
  unfold start
  rw [if_neg h1, if_neg h2, if_neg h3, if_pos h4]

theorem start_of_four (hlow : 0xF0 ≤ b.toNat) (hhigh : b.toNat < 0xF5) :
    start b = (.inside 2 (if b = 0xF0 then 0x90 else 0x80) (if b = 0xF4 then 0x8F else 0xBF)
      (b.toNat - 0xF0), []) := by
  have h1 : ¬ b < 0x80 := not_lt_of_toNat_le (Nat.le_trans (by decide) hlow)
  have h2 : ¬ b < 0xC2 := not_lt_of_toNat_le (Nat.le_trans (by decide) hlow)
  have h3 : ¬ b < 0xE0 := not_lt_of_toNat_le (Nat.le_trans (by decide) hlow)
  have h4 : ¬ b < 0xF0 := not_lt_of_toNat_le hlow
  have h5 : b < 0xF5 := UInt8.lt_iff_toNat_lt.2 hhigh
  unfold start
  rw [if_neg h1, if_neg h2, if_neg h3, if_neg h4, if_pos h5]

end

/-! ## Further bytes -/

/-- A further byte of a character, with six bits of its number. -/
def further (n : Nat) : UInt8 := UInt8.ofNat (n % 64 + 128)

theorem toNat_further (n : Nat) : (further n).toNat = n % 64 + 128 := toNat_ofNat_byte (by omega)

theorem further_fits (n : Nat) : 0x80 ≤ further n ∧ further n ≤ 0xBF := by
  have hn := toNat_further n
  simp only [UInt8.le_iff_toNat_le, UInt8.reduceToNat]
  omega

/-- The second byte is restricted behind the first byte of a range. -/
theorem further_fits_restricted {first last low high : UInt8} {k n : Nat} (hk : k < 256)
    (hlow : k = first.toNat → low.toNat ≤ n % 64 + 128)
    (hhigh : k = last.toNat → n % 64 + 128 ≤ high.toNat) :
    (if UInt8.ofNat k = first then low else 0x80) ≤ further n ∧
      further n ≤ (if UInt8.ofNat k = last then high else 0xBF) := by
  have hn := toNat_further n
  have hfits := further_fits n
  refine ⟨?_, ?_⟩
  · split
    · next hb =>
      rw [UInt8.le_iff_toNat_le, hn]
      exact hlow ((ofNat_eq_iff hk).1 hb)
    · exact hfits.1
  · split
    · next hb =>
      rw [UInt8.le_iff_toNat_le, hn]
      exact hhigh ((ofNat_eq_iff hk).1 hb)
    · exact hfits.2

section
variable {low high : UInt8} {more value n : Nat} (bytes : List UInt8)

theorem decodeFrom_inner (hfits : low ≤ further n ∧ further n ≤ high) :
    decodeFrom (.inside (more + 1) low high value) (further n :: bytes) =
      decodeFrom (.inside more 0x80 0xBF (value * 64 + n % 64)) bytes := by
  rw [decodeFrom_cons, step_inner hfits, toNat_further, Nat.add_sub_cancel]
  rfl

theorem decodeFrom_last (hfits : low ≤ further n ∧ further n ≤ high) :
    decodeFrom (.inside 0 low high value) (further n :: bytes) =
      some (Char.ofNat (value * 64 + n % 64)) :: decodeFrom .boundary bytes := by
  rw [decodeFrom_cons, step_last hfits, toNat_further, Nat.add_sub_cancel]
  rfl

end

/-! ## Characters -/

theorem toNat_lt_or (c : Char) : c.toNat < 0xD800 ∨ 0xDFFF < c.toNat ∧ c.toNat < 0x110000 := c.valid

/-- The bytes of a character, by its number. -/
theorem utf8EncodeChar_eq (c : Char) : String.utf8EncodeChar c =
    if c.toNat ≤ 0x7F then [UInt8.ofNat c.toNat]
    else if c.toNat ≤ 0x7FF then [UInt8.ofNat (c.toNat / 64 % 32 + 0xC0), further c.toNat]
    else if c.toNat ≤ 0xFFFF then
      [UInt8.ofNat (c.toNat / 4096 % 16 + 0xE0), further (c.toNat / 64), further c.toNat]
    else
      [UInt8.ofNat (c.toNat / 262144 % 8 + 0xF0), further (c.toNat / 4096), further (c.toNat / 64),
        further c.toNat] := rfl

/-- A character outside ASCII has no byte in it. -/
theorem le_of_mem_utf8EncodeChar {c : Char} (hc : 0x80 ≤ c.toNat) {b : UInt8}
    (hb : b ∈ String.utf8EncodeChar c) : 0x80 ≤ b.toNat := by
  have hfirst : ∀ {n}, n < 256 → 0x80 ≤ n → b = UInt8.ofNat n → 0x80 ≤ b.toNat := by
    rintro n hlt hle rfl
    rw [toNat_ofNat_byte hlt]
    exact hle
  have hfurther : ∀ {n}, b = further n → 0x80 ≤ b.toNat := by
    rintro n rfl
    rw [toNat_further]
    omega
  rw [utf8EncodeChar_eq, if_neg (by omega)] at hb
  split at hb
  · rcases List.mem_cons.1 hb with h | h
    · exact hfirst (by omega) (by omega) h
    · exact hfurther (List.mem_singleton.1 h)
  · split at hb
    · simp only [List.mem_cons, List.not_mem_nil, or_false] at hb
      rcases hb with h | h | h
      · exact hfirst (by omega) (by omega) h
      · exact hfurther h
      · exact hfurther h
    · simp only [List.mem_cons, List.not_mem_nil, or_false] at hb
      rcases hb with h | h | h | h
      · exact hfirst (by omega) (by omega) h
      · exact hfurther h
      · exact hfurther h
      · exact hfurther h

/-- **The bytes of a character** are read as this character. -/
theorem decodeFrom_encodeChar (c : Char) (bytes : List UInt8) :
    decodeFrom .boundary (String.utf8EncodeChar c ++ bytes) = some c :: decodeFrom .boundary bytes := by
  have hvalid := toNat_lt_or c
  have hchar : ∀ n, n = c.toNat → Char.ofNat n = c := by
    rintro n rfl
    exact Char.ofNat_toNat c
  rw [utf8EncodeChar_eq]
  split
  · next h1 =>
    have hb : (UInt8.ofNat c.toNat).toNat = c.toNat := toNat_ofNat_byte (by omega)
    show decodeFrom .boundary (UInt8.ofNat c.toNat :: bytes) = _
    rw [decodeFrom_cons]
    show (start _).2 ++ decodeFrom (start _).1 bytes = _
    rw [start_of_one (by omega), hb, hchar _ rfl]
    rfl
  · split
    · next h1 h2 =>
      have hb : (UInt8.ofNat (c.toNat / 64 % 32 + 0xC0)).toNat = c.toNat / 64 % 32 + 0xC0 :=
        toNat_ofNat_byte (by omega)
      show decodeFrom .boundary (UInt8.ofNat (c.toNat / 64 % 32 + 0xC0) :: further c.toNat :: bytes) = _
      rw [decodeFrom_cons]
      show (start _).2 ++ decodeFrom (start _).1 _ = _
      rw [start_of_two (by omega) (by omega), List.nil_append, decodeFrom_last _ (further_fits _), hb,
        hchar _ (by omega)]
    · split
      · next h1 h2 h3 =>
        have hlt : c.toNat / 4096 % 16 + 0xE0 < 256 := by omega
        have hb := toNat_ofNat_byte hlt
        show decodeFrom .boundary (UInt8.ofNat (c.toNat / 4096 % 16 + 0xE0) :: further (c.toNat / 64) ::
          further c.toNat :: bytes) = _
        rw [decodeFrom_cons]
        show (start _).2 ++ decodeFrom (start _).1 _ = _
        rw [start_of_three (by omega) (by omega), List.nil_append]
        -- a shorter form would begin with 0xE0, and a surrogate with 0xED
        rw [decodeFrom_inner _ (further_fits_restricted hlt
          (by simp only [UInt8.reduceToNat]; omega) (by simp only [UInt8.reduceToNat]; omega)),
          decodeFrom_last _ (further_fits _), hb, hchar _ (by omega)]
      · next h1 h2 h3 =>
        have hlt : c.toNat / 262144 % 8 + 0xF0 < 256 := by omega
        have hb := toNat_ofNat_byte hlt
        show decodeFrom .boundary (UInt8.ofNat (c.toNat / 262144 % 8 + 0xF0) ::
          further (c.toNat / 4096) :: further (c.toNat / 64) :: further c.toNat :: bytes) = _
        rw [decodeFrom_cons]
        show (start _).2 ++ decodeFrom (start _).1 _ = _
        rw [start_of_four (by omega) (by omega), List.nil_append]
        -- a shorter form would begin with 0xF0, and a number beyond the last character with 0xF4
        rw [decodeFrom_inner _ (further_fits_restricted hlt
          (by simp only [UInt8.reduceToNat]; omega) (by simp only [UInt8.reduceToNat]; omega)),
          decodeFrom_inner _ (further_fits _), decodeFrom_last _ (further_fits _), hb,
          hchar _ (by omega)]

/-! ## Texts -/

theorem decodeFrom_encode (t : Text) (bytes : List UInt8) :
    decodeFrom .boundary (encode t ++ bytes) = t.map some ++ decodeFrom .boundary bytes := by
  induction t with
  | nil => rfl
  | cons c t ih =>
    rw [encode_cons, List.append_assoc, decodeFrom_encodeChar, ih]
    rfl

theorem mapM_id_map_some (t : Text) : (t.map some).mapM id = some t := by
  induction t with
  | nil => rfl
  | cons c t ih =>
    rw [List.map_cons, List.mapM_cons, ih]
    rfl

/-- **The bytes of a text** are read back as the text. -/
theorem decode?_encode (t : Text) : decode? (encode t) = some t := by
  have hread := decodeFrom_encode t []
  have hnil : decodeFrom .boundary [] = [] := rfl
  rw [List.append_nil, hnil, List.append_nil] at hread
  rw [decode?, hread, mapM_id_map_some]

end Tagline.Utf8
