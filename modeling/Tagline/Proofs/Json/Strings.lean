import Tagline.Proofs.Json.Reading

/-!
# Strings

A string is read back as it was written

    string.Takes (quote t) t                                        (string_takes)

because the written form of each character leads the reader over it, and adds the bytes of this
character to those before (loop_escapeChar). A character that is not escaped stands for itself, in one
byte or more, and none of these bytes ends the string or begins an escape.
-/

namespace Tagline.Json.Decoder

/-! ## Escapes -/

theorem hexValue?_hexDigit {n : Nat} (hn : n < 16) : hexValue? (ascii (hexDigit n)) = some n := by
  have hall : ∀ n < 16, hexValue? (ascii (hexDigit n)) = some n := by decide
  exact hall n hn

theorem hexDigit_lt {n : Nat} (hn : n < 16) : (hexDigit n).toNat < 0x80 := by
  have hall : ∀ n < 16, (hexDigit n).toNat < 0x80 := by decide
  exact hall n hn

/-- Two digits behind two zeros are a byte. -/
theorem hexUnit_takes {n : Nat} (hn : n < 0x100) :
    hexUnit.Takes ['0', '0', hexDigit (n / 16), hexDigit (n % 16)] n := by
  intro rest
  have hhigh : n / 16 < 16 := by omega
  have hlow : n % 16 < 16 := by omega
  have hzero : hexValue? (ascii '0') = some 0 := by decide
  have hvalues : [ascii '0', ascii '0', ascii (hexDigit (n / 16)), ascii (hexDigit (n % 16))].mapM
      hexValue? = some [0, 0, n / 16, n % 16] := by
    simp only [List.mapM_cons, List.mapM_nil, hzero, hexValue?_hexDigit hhigh, hexValue?_hexDigit hlow]
    rfl
  rw [Input.prepend_cons _ _ (by decide), Input.prepend_cons _ _ (by decide),
    Input.prepend_cons _ _ (hexDigit_lt hhigh), Input.prepend_cons _ _ (hexDigit_lt hlow),
    Input.prepend_nil, hexUnit, bind_of_ok (next_push _), bind_of_ok (next_push _),
    bind_of_ok (next_push _), bind_of_ok (next_push _)]
  simp only [hvalues, pure_apply]
  have hfold : [0, 0, n / 16, n % 16].foldl (fun n d => n * 16 + d) 0 = n := by
    simp only [List.foldl_cons, List.foldl_nil]
    omega
  rw [hfold]

/-- The letters that stand for a character behind a backslash. -/
theorem escape_takes_letter {letter c : Char} (hletter : letter.toNat < 0x80)
    (hu : ascii letter ≠ ascii 'u') (h : escaped? (ascii letter) = some c) :
    escape.Takes [letter] c := by
  intro rest
  rw [Input.prepend_cons _ _ hletter, Input.prepend_nil, escape, bind_of_ok (next_push _), if_neg hu]
  simp only [h, pure_apply]

theorem escape_takes_unicode {n : Nat} (hn : n < 0x100) :
    escape.Takes ['u', '0', '0', hexDigit (n / 16), hexDigit (n % 16)] (Char.ofNat n) := by
  intro rest
  have htrailing : isTrailing n = false := by
    simp only [isTrailing, Bool.and_eq_false_iff, decide_eq_false_iff_not]
    omega
  have hleading : isLeading n = false := by
    simp only [isLeading, Bool.and_eq_false_iff, decide_eq_false_iff_not]
    omega
  rw [Input.prepend_cons _ _ (by decide), escape, bind_of_ok (next_push _), if_pos rfl, unicodeEscape,
    bind_of_ok (hexUnit_takes hn rest), htrailing, hleading]
  rfl

/-! ## Pieces -/

section
variable (before : List UInt8) (i : Input)

/-- A byte that stands for itself in a string. -/
def IsPlain (b : UInt8) : Prop := b ≠ ascii '"' ∧ b ≠ ascii '\\' ∧ 0x20 ≤ b

theorem stringPiece_plain {b : UInt8} (h : IsPlain b) :
    stringPiece before (i.push b) = .ok (.inl (b :: before), i) := by
  rw [stringPiece, bind_of_ok (next_push i), if_neg h.1, if_neg h.2.1, decide_eq_true h.2.2,
    bind_of_ok (check_true i), pure_apply]

theorem stringPiece_quote :
    stringPiece before (i.push (ascii '"')) = .ok (.inr before.reverse, i) := by
  rw [stringPiece, bind_of_ok (next_push i), if_pos rfl, pure_apply]

theorem stringPiece_escape {t : Text} {c : Char} (h : escape.Takes t c) :
    stringPiece before (i.prepend ('\\' :: t)) =
      .ok (.inl ((String.utf8EncodeChar c).reverse ++ before), i) := by
  rw [Input.prepend_cons _ _ (by decide), stringPiece, bind_of_ok (next_push _),
    if_neg (by decide), if_pos rfl, bind_of_ok (h i), pure_apply]

/-- Plain bytes are added to those before. -/
theorem loop_plain (bytes : List UInt8) (h : ∀ b ∈ bytes, IsPlain b) :
    loop stringPiece before { i with bytes := bytes ++ i.bytes } =
      loop stringPiece (bytes.reverse ++ before) i := by
  induction bytes generalizing before with
  | nil => rfl
  | cons b bytes ih =>
    have hstep := stringPiece_plain before { i with bytes := bytes ++ i.bytes } (h b List.mem_cons_self)
    rw [List.reverse_cons, List.append_assoc, List.singleton_append,
      ← ih (b :: before) fun b' hb' => h b' (List.mem_cons_of_mem b hb')]
    exact loop_of_inl hstep (Input.size_lt_push _ b)

theorem loop_escape {t : Text} {c : Char} (h : escape.Takes t c) :
    loop stringPiece before (i.prepend ('\\' :: t)) =
      loop stringPiece ((String.utf8EncodeChar c).reverse ++ before) i :=
  loop_of_inl (stringPiece_escape before i h) (i.size_lt_prepend _ (List.cons_ne_nil _ _))

end

/-! ## Characters -/

theorem isPlain_of_le {b : UInt8} (h : 0x80 ≤ b.toNat) : IsPlain b := by
  have hne : ∀ k : UInt8, k.toNat < 0x80 → b ≠ k := by
    rintro k hk rfl
    omega
  exact ⟨hne _ (by decide), hne _ (by decide), UInt8.le_iff_toNat_le.2 (Nat.le_trans (by decide) h)⟩

theorem isPlain_ascii {c : Char} (hascii : c.toNat < 0x80) (hquote : c ≠ '"') (hslash : c ≠ '\\')
    (hcontrol : 0x20 ≤ c.toNat) : IsPlain (ascii c) := by
  refine ⟨ascii_ne hascii (by decide) hquote, ascii_ne hascii (by decide) hslash,
    UInt8.le_iff_toNat_le.2 ?_⟩
  rw [toNat_ascii hascii]
  exact hcontrol

/-- A character that is not escaped stands for itself in all its bytes. -/
theorem isPlain_of_mem {c : Char} (hquote : c ≠ '"') (hslash : c ≠ '\\') (hcontrol : 0x20 ≤ c.toNat)
    {b : UInt8} (hb : b ∈ String.utf8EncodeChar c) : IsPlain b := by
  by_cases hascii : c.toNat < 0x80
  · rw [Input.utf8EncodeChar_of_ascii hascii, List.mem_singleton] at hb
    rw [hb]
    exact isPlain_ascii hascii hquote hslash hcontrol
  · exact isPlain_of_le (Utf8.le_of_mem_utf8EncodeChar (by omega) hb)

/-- The characters that are escaped by a letter, each with its letter. -/
def escapeLetters : List (Char × Char) :=
  [('"', '"'), ('\\', '\\'), ('\x08', 'b'), ('\t', 't'), ('\n', 'n'), ('\x0C', 'f'), ('\r', 'r')]

/-- The written form of a character is one of three. -/
theorem escapeChar_cases (c : Char) :
    (∃ letter, letter.toNat < 0x80 ∧ ascii letter ≠ ascii 'u' ∧ escaped? (ascii letter) = some c ∧
      escapeChar c = ['\\', letter]) ∨
    (c.toNat < 0x20 ∧
      escapeChar c = ['\\', 'u', '0', '0', hexDigit (c.toNat / 16), hexDigit (c.toNat % 16)]) ∨
    (c ≠ '"' ∧ c ≠ '\\' ∧ 0x20 ≤ c.toNat ∧ escapeChar c = [c]) := by
  by_cases hletter : c ∈ escapeLetters.map (·.1)
  · have hall : ∀ p ∈ escapeLetters, p.2.toNat < 0x80 ∧ ascii p.2 ≠ ascii 'u' ∧
        escaped? (ascii p.2) = some p.1 ∧ escapeChar p.1 = ['\\', p.2] := by decide
    obtain ⟨⟨c, letter⟩, hmem, rfl⟩ := List.mem_map.1 hletter
    exact .inl ⟨letter, hall _ hmem⟩
  · simp only [escapeLetters, List.map_cons, List.map_nil, List.mem_cons, List.not_mem_nil, or_false,
      not_or] at hletter
    obtain ⟨hquote, hslash, hb, ht, hn, hf, hr⟩ := hletter
    unfold escapeChar
    rw [if_neg hquote, if_neg hslash, if_neg hb, if_neg ht, if_neg hn, if_neg hf, if_neg hr]
    by_cases hcontrol : c.toNat < 0x20
    · rw [if_pos hcontrol]
      exact .inr (.inl ⟨hcontrol, rfl⟩)
    · rw [if_neg hcontrol]
      exact .inr (.inr ⟨hquote, hslash, by omega, rfl⟩)

/-- **A written character** adds its bytes to those before. -/
theorem loop_escapeChar (c : Char) (before : List UInt8) (i : Input) :
    loop stringPiece before (i.prepend (escapeChar c)) =
      loop stringPiece ((String.utf8EncodeChar c).reverse ++ before) i := by
  obtain ⟨letter, hlow, hu, hc, h⟩ | ⟨hlow, h⟩ | ⟨hquote, hslash, hcontrol, h⟩ := escapeChar_cases c
  · rw [h]
    exact loop_escape before i (escape_takes_letter hlow hu hc)
  · have hunicode := escape_takes_unicode (n := c.toNat) (by omega)
    rw [Char.ofNat_toNat] at hunicode
    rw [h]
    exact loop_escape before i hunicode
  · have hone : Utf8.encode [c] = String.utf8EncodeChar c := List.append_nil _
    rw [h, Input.prepend, hone]
    exact loop_plain before i _ fun b hb => isPlain_of_mem hquote hslash hcontrol hb

/-! ## Top theorem -/

theorem loop_flatMap_escapeChar (t : Text) (before : List UInt8) (i : Input) :
    loop stringPiece before (i.prepend (t.flatMap escapeChar)) =
      loop stringPiece ((Utf8.encode t).reverse ++ before) i := by
  induction t generalizing before with
  | nil => rfl
  | cons c t ih =>
    rw [List.flatMap_cons, Input.prepend_append, loop_escapeChar, ih, Utf8.encode_cons,
      List.reverse_append, List.append_assoc]

/-- The characters of a string and its closing quote. -/
theorem stringTail_takes (t : Text) : stringTail.Takes (t.flatMap escapeChar ++ ['"']) t := by
  intro rest
  have hbytes : loop stringPiece [] (rest.prepend (t.flatMap escapeChar ++ ['"'])) =
      .ok (Utf8.encode t, rest) := by
    rw [Input.prepend_append, loop_flatMap_escapeChar, Input.prepend_cons _ _ (by decide),
      Input.prepend_nil, loop_of_inr (stringPiece_quote _ rest), List.append_nil, List.reverse_reverse]
  rw [stringTail, bind_of_ok hbytes]
  simp only [Utf8.decode?_encode, pure_apply]

/-- **A quoted text** is read back as it was written. -/
theorem string_takes (t : Text) : string.Takes (quote t) t := by
  intro rest
  have htail := stringTail_takes t rest
  rw [quote, List.cons_append, Input.prepend_cons _ _ (by decide), string,
    bind_of_ok (token_push _ (by decide)), if_pos rfl, bind_of_ok (drop_push _), htail]

end Tagline.Json.Decoder
