import Tagline.Text.Basic

/-!
# Decimal numerals

Numbers are written in plain decimal digits, and can be read back (ofDigitChars_decimal).
-/

namespace Tagline.Text

def decimal (n : Nat) : Text := Nat.toDigits 10 n

theorem ofDigitChars_decimal (n : Nat) : Nat.ofDigitChars 10 (decimal n) 0 = n :=
  Nat.ofDigitChars_toDigits (by decide) (by decide)

theorem isDigit_of_mem_decimal {c : Char} {n : Nat} (hc : c ∈ decimal n) : c.isDigit = true :=
  Nat.isDigit_of_mem_toDigits (by decide) (by decide) hc

theorem decimal_ne_nil (n : Nat) : decimal n ≠ [] := Nat.toDigits_ne_nil

end Tagline.Text
