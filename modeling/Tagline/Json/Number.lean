import Tagline.Json.Decoder

/-!
# Numbers

Only natural numbers below 2^64 have a use here; any other number is of the wrong form. But a number is
read to its end before that is said, and one that lies beyond the range of double precision is no number
at all. Its size is judged by the leading digits that fit into 64 bits and by a power of ten, each
rounded to double precision before they are multiplied.
-/

namespace Tagline.Json

/-- A number, as far as it matters. -/
inductive Number where
  /-- A number below 2^64, written without sign, fraction and exponent. -/
  | natural (n : Nat)
  | other
deriving DecidableEq, Repr

def digitValue (b : UInt8) : Nat := b.toNat - 0x30

/-- An approximation `significand * 10 ^ exponent` of the size of a number. -/
structure Magnitude where
  significand : Nat
  exponent : Int := 0
deriving DecidableEq, Repr

def naturalLimit : Nat := 0xFFFFFFFFFFFFFFFF

/-- Appends digits to a number as long as it fits into 64 bits. Gives the number of digits that are left
out. -/
def absorb : Nat → List UInt8 → Nat × Nat
  | n, [] => (n, 0)
  | n, d :: digits =>
    if n * 10 + digitValue d ≤ naturalLimit then absorb (n * 10 + digitValue d) digits
    else (n, digits.length + 1)

namespace Magnitude

/-- The size of a number before its point. -/
def ofInteger (digits : List UInt8) : Magnitude :=
  let absorbed := absorb 0 digits
  ⟨absorbed.1, absorbed.2⟩

def addFraction (m : Magnitude) (digits : List UInt8) : Magnitude :=
  let absorbed := absorb m.significand digits
  ⟨absorbed.1, m.exponent - (digits.length - absorbed.2 : Nat)⟩

def scale (m : Magnitude) (e : Int) : Magnitude := ⟨m.significand, m.exponent + e⟩

/-- The nearest number with at most 53 significant bits; a tie goes to the even one. -/
def roundDouble (n : Nat) : Nat :=
  let shift := n.log2 - 52
  let unit := Nat.pow 2 shift
  let low := n / unit
  let rest := n % unit
  if unit < 2 * rest ∨ (unit = 2 * rest ∧ low % 2 = 1) then (low + 1) * unit else low * unit

/-- The largest exponent of a power of ten in double precision. -/
def maxExponent : Int := 308

/-- The least number that rounds to one beyond the range of double precision: half a step above the
largest double. -/
def roundingLimit : Nat := Nat.pow 2 1024 - Nat.pow 2 970

def isOutOfRange (m : Magnitude) : Bool :=
  if m.significand = 0 then false
  else if maxExponent < m.exponent then true
  else if m.exponent < 0 then false
  else roundingLimit ≤ roundDouble m.significand * roundDouble (Nat.pow 10 m.exponent.toNat)

end Magnitude

/-- The largest exponent that is worked out, 2^31 - 1. A larger one says enough as soon as it is seen. -/
def exponentLimit : Nat := 0x7FFFFFFF

namespace Decoder

/-- Takes the digits before the point. A zero stands alone. -/
def integerDigits : Decoder (List UInt8) := do
  let first ← next
  check (isDigit first)
  if first = ascii '0' then
    check (!(← peek?).any isDigit)
    return [first]
  else return first :: (← takeWhile isDigit)

def fractionDigits : Decoder (List UInt8) := do
  let digits ← takeWhile isDigit
  if digits = [] then
    let _ ← peek
    throw .malformed
  else return digits

def exponentSign : Decoder Bool := do
  let sign ← peek?
  if sign = some (ascii '+') ∨ sign = some (ascii '-') then drop
  return sign = some (ascii '-')

/-- Takes a digit of an exponent. Where the exponent has a limit, a digit that goes beyond it is
malformed, whatever stands behind it. -/
def exponentStep (limited : Bool) (e : Nat) : Decoder (Nat ⊕ Nat) := do
  match (← peek?).filter isDigit with
  | some d =>
    drop
    check (!limited || e * 10 + digitValue d ≤ exponentLimit)
    return .inl (e * 10 + digitValue d)
  | none => return .inr e

/-- Takes an exponent behind its letter. The size of the number that it belongs to is changed by it. It
has no limit where the number is a zero, or tends to it. -/
def exponent (m : Magnitude) : Decoder Magnitude := do
  let negative ← exponentSign
  let first ← next
  check (isDigit first)
  let e ← loop (exponentStep (!negative && m.significand != 0)) (digitValue first)
  return m.scale (if negative then -e else e)

def atPoint : Decoder Bool := return (← peek?) = some (ascii '.')

def atExponent : Decoder Bool := do
  let b? ← peek?
  return b? = some (ascii 'e') ∨ b? = some (ascii 'E')

/-- Takes a number behind its sign. -/
def unsigned (negative : Bool) : Decoder Number := do
  let whole := Magnitude.ofInteger (← integerDigits)
  if ← atPoint then
    drop
    let m := whole.addFraction (← fractionDigits)
    if ← atExponent then
      drop
      approximate (← exponent m)
    else approximate m
  else if ← atExponent then
    drop
    approximate (← exponent whole)
  else if negative || 0 < whole.exponent then approximate whole
  else return .natural whole.significand
where
  /-- Ends a number of which only the size is known. -/
  approximate (m : Magnitude) : Decoder Number := do
    check (!m.isOutOfRange)
    return .other

def number : Decoder Number := do
  if (← peek?) = some (ascii '-') then
    drop
    unsigned true
  else unsigned false

/-- Skips digits, of which there is at least one. Unlike in a number that is read, a text that ends
here is malformed. -/
def skipDigits : Decoder Unit := do
  check ((← takeWhile isDigit) != [])

def skipInteger : Decoder Unit := do
  if (← peek?) = some (ascii '0') then
    drop
    check (!(← peek?).any isDigit)
  else skipDigits

def skipExponent : Decoder Unit := do
  let _ ← exponentSign
  skipDigits

def skipNumber : Decoder Unit := do
  skipInteger
  if ← atPoint then
    drop
    skipDigits
  if ← atExponent then
    drop
    skipExponent

end Decoder

end Tagline.Json
