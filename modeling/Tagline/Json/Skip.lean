import Tagline.Json.Number
import Tagline.Json.Quoted

/-!
# Skipping values

A value that nobody asks for is still checked to be well formed. The brackets that are open around the
place are kept on a stack, so there is no limit to how deep they nest.
-/

namespace Tagline.Json

inductive Bracket where
  | array
  | object
deriving DecidableEq, Repr

def Bracket.closing : Bracket → UInt8
  | .array => ascii ']'
  | .object => ascii '\x7d'

/-- Where skipping stands inside some brackets, innermost first. -/
inductive SkipState where
  | value (around : List Bracket)
  | behind (around : List Bracket)
deriving DecidableEq, Repr

namespace Decoder

def colon : Decoder Unit := expect (ascii ':')

def skipKey : Decoder Unit := do
  expect (ascii '"')
  skipString
  colon

/-- Skips a literal that starts with the byte. -/
def literal (b : UInt8) : Decoder Unit :=
  if b = ascii 'n' then word ("null".toList.map ascii)
  else if b = ascii 't' then word ("true".toList.map ascii)
  else if b = ascii 'f' then word ("false".toList.map ascii)
  else throw .malformed

/-- Skips the start of a value: all of it, or an opening bracket and the key behind that. -/
def skipStart (around : List Bracket) : Decoder SkipState := do
  let b ← token
  if b = ascii '[' then
    drop
    if (← token) = ascii ']' then
      drop
      return .behind around
    else return .value (.array :: around)
  else if b = ascii '\x7b' then
    drop
    if (← token) = ascii '\x7d' then
      drop
      return .behind around
    else
      skipKey
      return .value (.object :: around)
  else
    if b = ascii '"' then
      drop
      skipString
    else if b = ascii '-' then
      drop
      skipNumber
    else if isDigit b then skipNumber
    else literal b
    return .behind around

/-- Skips what stands behind a value inside a bracket: the end of the bracket, or a comma and the key
behind it. -/
def skipBehind (innermost : Bracket) (around : List Bracket) : Decoder SkipState := do
  let b ← token
  if b = ascii ',' then
    drop
    match innermost with
    | .array => return .value (.array :: around)
    | .object =>
      skipKey
      return .value (.object :: around)
  else
    check (b == innermost.closing)
    drop
    return .behind around

/-- A step in skipping a value. Behind the value, and inside no bracket, it is done. -/
def skipStep : SkipState → Decoder (SkipState ⊕ Unit)
  | .value around => do return .inl (← skipStart around)
  | .behind [] => return .inr ()
  | .behind (innermost :: around) => do return .inl (← skipBehind innermost around)

def skipValue : Decoder Unit := loop skipStep (.value [])

end Decoder

end Tagline.Json
