import Tagline.Text.Basic
import Tagline.Text.CharClass

/-!
# Cursor

A cursor stands in a line: it knows the bytes it has passed and the text that is left. It only moves
forward, and never stops inside a character.

A token is a literal that is followed by the end of the line, a blank, or an opening parenthesis.
-/

namespace Tagline

/-- A place in a line. -/
structure Cursor where
  /-- The number of bytes before the cursor. -/
  offset : Nat
  /-- The text from the cursor to the end of the line. -/
  rest : Text
deriving DecidableEq, Repr

namespace Text

/-- Whether a token may end before the text. -/
def endsToken : Text → Bool
  | [] => true
  | c :: _ => isBlank c || c == '('

/-- The text behind the literal, if the text starts with it as a token. -/
def dropToken? (literal t : Text) : Option Text :=
  let behind := t.drop literal.length
  if literal.isPrefixOf t && endsToken behind then some behind else none

end Text

namespace Cursor

def ofLine (line : Text) : Cursor := ⟨0, line⟩

def peek? (c : Cursor) : Option Char := c.rest.head?

/-- Moves over the character under the cursor, if there is one. -/
def bump (c : Cursor) : Cursor :=
  match c.rest with
  | [] => c
  | a :: r => ⟨c.offset + a.utf8Size, r⟩

/-- Moves over all characters up to the first outside the class. -/
def skipWhile (p : Char → Bool) (c : Cursor) : Cursor :=
  ⟨c.offset + Text.byteSize (c.rest.takeWhile p), c.rest.dropWhile p⟩

def skipBlank (c : Cursor) : Cursor := c.skipWhile Text.isBlank

def skipToEnd (c : Cursor) : Cursor := ⟨c.offset + Text.byteSize c.rest, []⟩

/-- Moves over the literal, if it stands at the cursor as a token. -/
def eat? (literal : Text) (c : Cursor) : Option Cursor :=
  (Text.dropToken? literal c.rest).map fun r => ⟨c.offset + Text.byteSize literal, r⟩

/-- Moves over the first of the literals that stands at the cursor as a token. -/
def eatAny? (literals : List Text) (c : Cursor) : Option (Text × Cursor) :=
  literals.findSome? fun literal => (c.eat? literal).map (literal, ·)

end Cursor

/-! ## Lemmas -/

namespace Text

theorem dropToken?_eq_some {literal t r : Text} :
    dropToken? literal t = some r ↔ t = literal ++ r ∧ endsToken r = true := by
  unfold dropToken?
  rw [Option.ite_none_right_eq_some, Bool.and_eq_true, List.isPrefixOf_iff_prefix]
  constructor
  · rintro ⟨⟨hstarts, hends⟩, hr⟩
    obtain rfl := Option.some.inj hr
    exact ⟨(List.prefix_iff_eq_append.1 hstarts).symm, hends⟩
  · rintro ⟨rfl, hends⟩
    rw [List.drop_left]
    exact ⟨⟨List.prefix_append literal r, hends⟩, rfl⟩

end Text

namespace Cursor

theorem eat?_eq_some {literal : Text} {c d : Cursor} :
    c.eat? literal = some d ↔
      c.rest = literal ++ d.rest ∧ Text.endsToken d.rest = true ∧
        d.offset = c.offset + Text.byteSize literal := by
  unfold eat?
  rw [Option.map_eq_some_iff]
  constructor
  · rintro ⟨r, h, rfl⟩
    obtain ⟨h1, h2⟩ := Text.dropToken?_eq_some.1 h
    exact ⟨h1, h2, rfl⟩
  · rintro ⟨h1, h2, h3⟩
    refine ⟨d.rest, Text.dropToken?_eq_some.2 ⟨h1, h2⟩, ?_⟩
    cases d
    simp_all

theorem eatAny?_mem {literals : List Text} {literal : Text} {c d : Cursor}
    (h : c.eatAny? literals = some (literal, d)) : literal ∈ literals ∧ c.eat? literal = some d := by
  unfold eatAny? at h
  obtain ⟨w, hw, h⟩ := List.exists_of_findSome?_eq_some h
  obtain ⟨e, he, heq⟩ := Option.map_eq_some_iff.1 h
  simp only [Prod.mk.injEq] at heq
  obtain ⟨rfl, rfl⟩ := heq
  exact ⟨hw, he⟩

theorem length_rest_skipWhile_le (p : Char → Bool) (c : Cursor) :
    (c.skipWhile p).rest.length ≤ c.rest.length := by
  have h := congrArg List.length (List.takeWhile_append_dropWhile (p := p) (l := c.rest))
  rw [List.length_append] at h
  simp only [skipWhile]
  omega

theorem length_rest_skipBlank_le (c : Cursor) : c.skipBlank.rest.length ≤ c.rest.length :=
  length_rest_skipWhile_le _ c

theorem length_rest_bump_lt {c : Cursor} (h : c.rest ≠ []) : c.bump.rest.length < c.rest.length := by
  unfold bump
  split
  · next hr => exact absurd hr h
  · next hr => simp [hr]

theorem length_rest_eat?_lt {literal : Text} {c d : Cursor} (hne : literal ≠ [])
    (h : c.eat? literal = some d) : d.rest.length < c.rest.length := by
  obtain ⟨hr, -, -⟩ := eat?_eq_some.1 h
  have := List.length_pos_iff.2 hne
  rw [hr, List.length_append]
  omega

end Cursor

end Tagline
