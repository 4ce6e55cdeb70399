import Tagline.Text.Alphabetic
import Tagline.Text.Numeric

/-!
# Classes of characters

Two classes decide how a line is read: blanks, which separate words, and word characters, of which
names and words consist. They have no member in common (not_isWord_of_isBlank).
-/

namespace Tagline.Text

/-- The code points with the Unicode property White_Space. -/
def blankRanges : CodeRanges :=
  [(0x9, 0xD), (0x20, 0x20), (0x85, 0x85), (0xA0, 0xA0), (0x1680, 0x1680), (0x2000, 0x200A),
   (0x2028, 0x2029), (0x202F, 0x202F), (0x205F, 0x205F), (0x3000, 0x3000)]

def isBlank (c : Char) : Bool := blankRanges.covers c.toNat

/-- Whether a character is a letter or a number of any script. -/
def isAlphanumeric (c : Char) : Bool :=
  alphabeticRanges.covers c.toNat || numericRanges.covers c.toNat

/-- Whether a character can stand inside a word: a letter, a number, or an underscore. -/
def isWord (c : Char) : Bool := isAlphanumeric c || c == '_'

/-! ## Lemmas -/

/-- The members of the class of blanks, one by one. -/
theorem mem_of_isBlank {c : Char} (h : isBlank c = true) :
    c.toNat ∈ [0x9, 0xA, 0xB, 0xC, 0xD, 0x20, 0x85, 0xA0, 0x1680, 0x2000, 0x2001, 0x2002, 0x2003,
      0x2004, 0x2005, 0x2006, 0x2007, 0x2008, 0x2009, 0x200A, 0x2028, 0x2029, 0x202F, 0x205F,
      0x3000] := by
  obtain ⟨r, hr, hn⟩ := CodeRanges.exists_range_of_covers h
  simp only [blankRanges, List.mem_cons, List.not_mem_nil, or_false] at hr
  simp only [List.mem_cons, List.not_mem_nil, or_false]
  rcases hr with rfl | rfl | rfl | rfl | rfl | rfl | rfl | rfl | rfl | rfl <;> simp only at hn <;> omega

theorem not_isAlphanumeric_of_isBlank {c : Char} (h : isBlank c = true) :
    isAlphanumeric c = false := by
  have hm := mem_of_isBlank h
  have hall : ∀ n ∈ [0x9, 0xA, 0xB, 0xC, 0xD, 0x20, 0x85, 0xA0, 0x1680, 0x2000, 0x2001, 0x2002,
      0x2003, 0x2004, 0x2005, 0x2006, 0x2007, 0x2008, 0x2009, 0x200A, 0x2028, 0x2029, 0x202F, 0x205F,
      0x3000], (alphabeticRanges.covers n || numericRanges.covers n) = false := by decide +kernel
  exact hall _ hm

theorem not_isWord_of_isBlank {c : Char} (h : isBlank c = true) : isWord c = false := by
  have hc : c ≠ '_' := by
    rintro rfl
    exact absurd h (by decide)
  simp [isWord, not_isAlphanumeric_of_isBlank h, hc]

end Tagline.Text
