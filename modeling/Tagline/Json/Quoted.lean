import Tagline.Json.Decoder
import Tagline.Text.Utf8

/-!
# Quoted strings

A string stands between quotes. A quote, a backslash and the characters below U+0020 are escaped when
it is written; a reader also takes the escapes `\/` and `\uXXXX`, where a character beyond U+FFFF is
written as a pair of surrogates. A string that is skipped is not decoded, so it may hold surrogates
that form no pair, and bytes that are no UTF-8.
-/

namespace Tagline.Json

def hexValue? (b : UInt8) : Option Nat :=
  if ascii '0' ≤ b && b ≤ ascii '9' then some (b.toNat - 0x30)
  else if ascii 'a' ≤ b && b ≤ ascii 'f' then some (b.toNat - 0x61 + 10)
  else if ascii 'A' ≤ b && b ≤ ascii 'F' then some (b.toNat - 0x41 + 10)
  else none

def hexDigit (n : Nat) : Char := Nat.digitChar n

/-- The character that a letter stands for behind a backslash. -/
def escaped? (b : UInt8) : Option Char :=
  [('"', '"'), ('\\', '\\'), ('/', '/'), ('b', '\x08'), ('f', '\x0C'), ('n', '\n'), ('r', '\r'),
    ('t', '\t')].findSome? fun (letter, c) => if ascii letter = b then some c else none

/-- Whether a code unit is the first half of a pair of surrogates. -/
def isLeading (n : Nat) : Bool := 0xD800 ≤ n && n ≤ 0xDBFF

/-- Whether a code unit is the second half of a pair of surrogates. -/
def isTrailing (n : Nat) : Bool := 0xDC00 ≤ n && n ≤ 0xDFFF

namespace Decoder

/-- Takes four hexadecimal digits. All four bytes are taken before they are looked at. -/
def hexUnit : Decoder Nat := do
  let digits := [← next, ← next, ← next, ← next]
  match digits.mapM hexValue? with
  | some values => return values.foldl (fun n d => n * 16 + d) 0
  | none => throw .malformed

/-- Takes the digits of an escape `\uXXXX`, and the second half of a pair if they are the first. -/
def unicodeEscape : Decoder Char := do
  let first ← hexUnit
  check (!isTrailing first)
  if isLeading first then
    check ((← next) == ascii '\\')
    check ((← next) == ascii 'u')
    let second ← hexUnit
    check (isTrailing second)
    return Char.ofNat (0x10000 + (first - 0xD800) * 0x400 + (second - 0xDC00))
  else return Char.ofNat first

def escape : Decoder Char := do
  let b ← next
  if b = ascii 'u' then unicodeEscape
  else
    match escaped? b with
    | some c => return c
    | none => throw .malformed

/-- Takes a piece of a string and adds its bytes to those before it, which stand in reverse. The
closing quote ends the string. -/
def stringPiece (before : List UInt8) : Decoder (List UInt8 ⊕ List UInt8) := do
  let b ← next
  if b = ascii '"' then return .inr before.reverse
  else if b = ascii '\\' then
    let c ← escape
    return .inl ((String.utf8EncodeChar c).reverse ++ before)
  else
    check (0x20 ≤ b)
    return .inl (b :: before)

/-- Takes a string behind its opening quote. -/
def stringTail : Decoder Text := do
  let bytes ← loop stringPiece []
  match Utf8.decode? bytes with
  | some t => return t
  | none => throw .malformed

def skipPiece (_ : Unit) : Decoder (Unit ⊕ Unit) := do
  let b ← next
  if b = ascii '"' then return .inr ()
  else if b = ascii '\\' then
    let e ← next
    if e = ascii 'u' then
      let _ ← hexUnit
      return .inl ()
    else
      check (escaped? e).isSome
      return .inl ()
  else
    check (0x20 ≤ b)
    return .inl ()

def skipString : Decoder Unit := loop skipPiece ()

end Decoder

def escapeChar (c : Char) : Text :=
  if c = '"' then ['\\', '"']
  else if c = '\\' then ['\\', '\\']
  else if c = '\x08' then ['\\', 'b']
  else if c = '\t' then ['\\', 't']
  else if c = '\n' then ['\\', 'n']
  else if c = '\x0C' then ['\\', 'f']
  else if c = '\r' then ['\\', 'r']
  else if c.toNat < 0x20 then
    ['\\', 'u', '0', '0', hexDigit (c.toNat / 16), hexDigit (c.toNat % 16)]
  else [c]

def quote (t : Text) : Text := '"' :: t.flatMap escapeChar ++ ['"']

end Tagline.Json
