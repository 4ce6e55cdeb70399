import Tagline.Json.Skip

/-!
# Records and lists

A record is written as an object with its fields as members, or as an array of its fields in order. In
an object, members that are no fields are skipped; a field that occurs twice is a mismatch as soon as
its key is read, and a field that is missing is one at the end of the object.
-/

namespace Tagline.Json

/-- What a key means to a reader that has read some members already. -/
inductive Member (σ : Type) where
  | unknown
  /-- A field that has been read before. -/
  | repeated
  /-- A field, and how to read its value. -/
  | field (value : Decoder σ)

/-- A field that is read by a decoder, unless it has a value already. -/
def Member.once {σ α : Type} (old : Option α) (d : Decoder α) (set : α → σ) : Member σ :=
  match old with
  | some _ => .repeated
  | none => .field (set <$> d)

namespace Decoder

/-- Fails because the value at the cursor has the wrong form. A scalar is read first, so that its own
faults come first. -/
def mismatch {α : Type} : Decoder α := do
  let b ← token
  if b = ascii '[' ∨ b = ascii '\x7b' then throw .mismatched
  else if b = ascii '"' then
    drop
    let _ ← stringTail
    throw .mismatched
  else if b = ascii '-' ∨ isDigit b then
    let _ ← number
    throw .mismatched
  else
    literal b
    throw .mismatched

def string : Decoder Text := do
  if (← token) = ascii '"' then
    drop
    stringTail
  else mismatch

/-- Reads a natural number below 2^64. -/
def natural : Decoder Nat := do
  let b ← token
  if b = ascii '-' ∨ isDigit b then
    match ← number with
    | .natural n => return n
    | .other => throw .mismatched
  else mismatch

def null : Decoder Unit := do
  let b ← token
  if b = ascii 'n' then literal b else mismatch

def optional {α : Type} (d : Decoder α) : Decoder (Option α) := do
  if (← token) = ascii 'n' then
    null
    return none
  else return some (← d)

/-- Reads the next element of an array, if there is one. All but the first follow a comma. -/
def element? {α : Type} (first : Bool) (d : Decoder α) : Decoder (Option α) := do
  let b ← token
  if b = ascii ']' then return none
  else if first then return some (← d)
  else if b = ascii ',' then
    drop
    check ((← token) != ascii ']')
    return some (← d)
  else throw .malformed

def element {α : Type} (first : Bool) (d : Decoder α) : Decoder α := do
  match ← element? first d with
  | some a => return a
  | none => throw .mismatched

/-- Reads an element of a list, given those before it in reverse. -/
def listStep {α : Type} (d : Decoder α) (before : List α) : Decoder (List α ⊕ List α) := do
  match ← element? before.isEmpty d with
  | some a => return .inl (a :: before)
  | none => return .inr before.reverse

def list {α : Type} (d : Decoder α) : Decoder (List α) := do
  if (← token) = ascii '[' then
    drop
    let elements ← loop (listStep d) []
    expect (ascii ']')
    return elements
  else mismatch

/-- Reads a member of an object. The flag tells whether it is the first. -/
def memberStep {σ : Type} (member : Text → σ → Member σ) (state : Bool × σ) :
    Decoder ((Bool × σ) ⊕ σ) := do
  let b ← token
  if b = ascii '\x7d' then return .inr state.2
  if !state.1 then expect (ascii ',')
  expect (ascii '"')
  match member (← stringTail) state.2 with
  | .unknown =>
    colon
    skipValue
    return .inl (false, state.2)
  | .repeated => throw .mismatched
  | .field value =>
    colon
    return .inl (false, ← value)

/-- Reads a record. Its members fill in what is known of it from the start, and in the end it must be
complete. -/
def record {σ α : Type} (member : Text → σ → Member σ) (start : σ) (complete? : σ → Option α)
    (fields : Decoder α) : Decoder α := do
  let b ← token
  if b = ascii '\x7b' then
    drop
    let state ← loop (memberStep member) (true, start)
    match complete? state with
    | some a =>
      expect (ascii '\x7d')
      return a
    | none => throw .mismatched
  else if b = ascii '[' then
    drop
    let a ← fields
    expect (ascii ']')
    return a
  else mismatch

end Decoder

end Tagline.Json
