import Tagline.Proofs.Json.Reading

/-!
# Numbers

A natural number that fits into 64 bits is read back as it was written

    natural.Reads (decimal n) n                                     (natural_reads)

where something behind it shows that it ends. Its numeral has no zero in front, unless it is the zero
(exists_decimal_eq_cons), and no digit of it goes beyond the limit, because every number on the way is
at most the number itself (absorb_digits).
-/

namespace Tagline.Json

/-! ## Digits -/

section
variable {c : Char} (hc : c.isDigit = true)

include hc

theorem digit_range : 0x30 ≤ c.toNat ∧ c.toNat ≤ 0x39 := Char.isDigit_iff_toNat.1 hc

theorem digit_lt : c.toNat < 0x80 := Nat.lt_of_le_of_lt (digit_range hc).2 (by decide)

theorem isDigit_ascii : isDigit (ascii c) = true := by
  simp only [isDigit, Bool.and_eq_true, decide_eq_true_eq, UInt8.le_iff_toNat_le,
    toNat_ascii (digit_lt hc)]
  exact digit_range hc

theorem digitValue_ascii : digitValue (ascii c) = c.toNat - '0'.toNat := by
  rw [digitValue, toNat_ascii (digit_lt hc)]
  rfl

end

theorem ne_of_isDigit {b d : UInt8} (hb : isDigit b = true) (hd : isDigit d = false) : b ≠ d := by
  rintro rfl
  rw [hb] at hd
  cases hd

theorem isSpace_of_isDigit {b : UInt8} (hb : isDigit b = true) : isSpace b = false := by
  simp only [isSpace, Bool.or_eq_false_iff, beq_eq_false_iff_ne]
  exact ⟨⟨⟨ne_of_isDigit hb rfl, ne_of_isDigit hb rfl⟩, ne_of_isDigit hb rfl⟩, ne_of_isDigit hb rfl⟩

/-- The numeral of a number other than zero has no zero in front. -/
theorem exists_decimal_eq_cons (n : Nat) (hn : n ≠ 0) : ∃ c t, Text.decimal n = c :: t ∧ c ≠ '0' := by
  induction n using Nat.strongRecOn with
  | ind n ih =>
    by_cases hlt : n < 10
    · refine ⟨n.digitChar, [], Nat.toDigits_of_lt_base hlt, ?_⟩
      rw [Ne, Nat.digitChar_eq_zero]
      exact hn
    · obtain ⟨c, t, ht, hc⟩ := ih (n / 10) (by omega) (by omega)
      refine ⟨c, t ++ [(n % 10).digitChar], ?_, hc⟩
      have hsplit : Text.decimal n = Text.decimal (n / 10) ++ [(n % 10).digitChar] :=
        Nat.toDigits_of_base_le (by decide) (by omega)
      rw [hsplit, ht, List.cons_append]

/-! ## Values -/

theorem le_ofDigitChars (t : Text) (m : Nat) : m ≤ Nat.ofDigitChars 10 t m := by
  induction t generalizing m with
  | nil => exact Nat.le_refl m
  | cons c t ih =>
    have hnext := ih (10 * m + (c.toNat - '0'.toNat))
    rw [Nat.ofDigitChars_cons]
    omega

/-- Digits are absorbed if the number they end in fits. -/
theorem absorb_digits {t : Text} (ht : ∀ c ∈ t, c.isDigit = true) (m : Nat)
    (hfits : Nat.ofDigitChars 10 t m ≤ naturalLimit) :
    absorb m (t.map ascii) = (Nat.ofDigitChars 10 t m, 0) := by
  induction t generalizing m with
  | nil => rfl
  | cons c t ih =>
    have hvalue : m * 10 + digitValue (ascii c) = 10 * m + (c.toNat - '0'.toNat) := by
      rw [digitValue_ascii (ht c List.mem_cons_self), Nat.mul_comm]
    rw [Nat.ofDigitChars_cons] at hfits ⊢
    have hstep := Nat.le_trans (le_ofDigitChars t _) hfits
    rw [List.map_cons, absorb, hvalue, if_pos hstep,
      ih (fun d hd => ht d (List.mem_cons_of_mem c hd)) _ hfits]

theorem ofInteger_decimal {n : Nat} (hn : n ≤ naturalLimit) :
    Magnitude.ofInteger ((Text.decimal n).map ascii) = ⟨n, 0⟩ := by
  have hvalue := Text.ofDigitChars_decimal n
  have habsorb := absorb_digits (fun c hc => Text.isDigit_of_mem_decimal hc) 0 (hvalue.symm ▸ hn)
  rw [Magnitude.ofInteger, habsorb, hvalue]
  rfl

/-! ## The end of a number -/

/-- Whether a number ends in front of the input: what follows, if anything does, is no part of it. -/
structure Input.EndsNumber (i : Input) : Prop where
  peek : Decoder.peek? i = .ok (i.bytes.head?, i)
  other : ∀ b ∈ i.bytes.head?, isDigit b = false ∧ b ≠ ascii '.' ∧ b ≠ ascii 'e' ∧ b ≠ ascii 'E'

/-- A delimiter is no part of a number. -/
theorem Input.Delimits.endsNumber {i : Input} (hi : i.Delimits) : i.EndsNumber := by
  obtain ⟨b, j, rfl, hb⟩ := hi
  constructor
  · rfl
  · intro c hc
    obtain rfl : b = c := Option.some.inj hc
    rcases hb with rfl | rfl | rfl <;> decide

/-- A number may stand at the end of a text. -/
theorem Input.endsNumber_ofText_nil : (Input.ofText []).EndsNumber := by
  constructor
  · rfl
  · intro b hb
    cases hb

namespace Decoder

section
variable {i : Input} (hi : i.EndsNumber)

include hi

theorem loop_digits {t : Text} (ht : ∀ c ∈ t, c.isDigit = true) (before : List UInt8) :
    loop (takeStep isDigit) before (i.prepend t) = .ok (before.reverse ++ t.map ascii, i) := by
  induction t generalizing before with
  | nil =>
    have hstop : i.bytes.head?.filter isDigit = none := by
      rw [Option.filter_eq_none_iff]
      intro b hb
      rw [(hi.other b hb).1]
      decide
    rw [List.map_nil, List.append_nil]
    exact loop_takeStep_stop i hi.peek hstop before
  | cons c t ih =>
    have hc := ht c List.mem_cons_self
    rw [Input.prepend_cons _ _ (digit_lt hc), loop_takeStep_push _ (isDigit_ascii hc),
      ih (fun d hd => ht d (List.mem_cons_of_mem c hd)), List.reverse_cons, List.append_assoc]
    rfl

theorem takeWhile_digits {t : Text} (ht : ∀ c ∈ t, c.isDigit = true) :
    takeWhile isDigit (i.prepend t) = .ok (t.map ascii, i) := loop_digits hi ht []

theorem integerDigits_decimal (n : Nat) :
    integerDigits (i.prepend (Text.decimal n)) = .ok ((Text.decimal n).map ascii, i) := by
  by_cases hn : n = 0
  · have hzero : isDigit (ascii '0') = true := isDigit_ascii (by decide)
    have hother : i.bytes.head?.any isDigit = false := by
      rw [Option.any_eq_false]
      intro b hb
      rw [(hi.other b hb).1]
    rw [hn]
    show integerDigits (i.prepend ['0']) = _
    rw [Input.prepend_cons _ _ (by decide), Input.prepend_nil, integerDigits, bind_of_ok (next_push _),
      hzero, bind_of_ok (check_true _), if_pos rfl, bind_of_ok hi.peek, hother]
    rfl
  · obtain ⟨c, t, ht, hc⟩ := exists_decimal_eq_cons n hn
    have hdigit : ∀ d ∈ c :: t, d.isDigit = true := fun d hd => Text.isDigit_of_mem_decimal (ht ▸ hd)
    have hfirst := hdigit c List.mem_cons_self
    have hzero := ascii_ne (digit_lt hfirst) (by decide) hc
    rw [ht, Input.prepend_cons _ _ (digit_lt hfirst), integerDigits, bind_of_ok (next_push _),
      isDigit_ascii hfirst, bind_of_ok (check_true _), if_neg hzero,
      bind_of_ok (takeWhile_digits hi fun d hd => hdigit d (List.mem_cons_of_mem c hd))]
    rfl

theorem unsigned_decimal {n : Nat} (hn : n ≤ naturalLimit) :
    unsigned false (i.prepend (Text.decimal n)) = .ok (.natural n, i) := by
  have hpoint : i.bytes.head? ≠ some (ascii '.') := fun h => (hi.other _ h).2.1 rfl
  have he : i.bytes.head? ≠ some (ascii 'e') := fun h => (hi.other _ h).2.2.1 rfl
  have hE : i.bytes.head? ≠ some (ascii 'E') := fun h => (hi.other _ h).2.2.2 rfl
  have hatPoint : atPoint i = .ok (false, i) := by
    rw [atPoint, bind_of_ok hi.peek, pure_apply, decide_eq_false hpoint]
  have hatExponent : atExponent i = .ok (false, i) := by
    rw [atExponent, bind_of_ok hi.peek, pure_apply, decide_eq_false (not_or.2 ⟨he, hE⟩)]
  rw [unsigned, bind_of_ok (integerDigits_decimal hi n), ofInteger_decimal hn, bind_of_ok hatPoint,
    if_neg (by decide), bind_of_ok hatExponent, if_neg (by decide), if_neg (by simp), pure_apply]

/-- **A numeral** is taken where a number ends. -/
theorem natural_decimal {n : Nat} (hn : n ≤ naturalLimit) :
    natural (i.prepend (Text.decimal n)) = .ok (n, i) := by
  have hne : Text.decimal n ≠ [] := Nat.toDigits_ne_nil
  obtain ⟨c, t, ht⟩ := List.exists_cons_of_ne_nil hne
  have hdigit : c.isDigit = true := Text.isDigit_of_mem_decimal (ht ▸ List.mem_cons_self)
  have hbyte := isDigit_ascii hdigit
  have hnumber := unsigned_decimal hi hn
  rw [ht, Input.prepend_cons _ _ (digit_lt hdigit)] at hnumber ⊢
  have hread : number ((i.prepend t).push (ascii c)) = .ok (.natural n, i) := by
    rw [number, bind_of_ok (peek?_push _), if_neg, hnumber]
    rw [Option.some.injEq]
    exact ne_of_isDigit hbyte rfl
  rw [natural, bind_of_ok (token_push _ (isSpace_of_isDigit hbyte)), if_pos (.inr hbyte),
    bind_of_ok hread]
  rfl

end

/-! ## Top theorem -/

/-- **A numeral** is read back as its number. -/
theorem natural_reads {n : Nat} (hn : n ≤ naturalLimit) : natural.Reads (Text.decimal n) n := by
  intro rest hrest
  exact natural_decimal hrest.endsNumber hn

end Decoder

end Tagline.Json
