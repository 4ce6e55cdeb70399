import Tagline.Json.Fault
import Tagline.Source

/-!
# Decoders

A decoder takes bytes from the front of an input and gives a value or the first fault. Some bytes of an
input are at hand, and a source delivers those behind them. A byte is taken from the source only when
a decoder asks for one and none is at hand, so an end or a failure of the source is noticed there and
not before. All decoders are built from `peek?` and `drop`, which look at one byte at a time.
-/

namespace Tagline.Json

/-- The part of a text that has not been decoded. -/
structure Input where
  /-- The bytes at hand. -/
  bytes : List UInt8
  /-- The source of the bytes behind them. -/
  source : Source := []
deriving DecidableEq, Repr

def Input.size (input : Input) : Nat := input.bytes.length + input.source.size

/-- Decodes a value from the front of an input. -/
abbrev Decoder (α : Type) := StateT Input (Except Fault) α

def ascii (c : Char) : UInt8 := UInt8.ofNat c.toNat

/-- Whether a byte can stand between the parts of a text: space, newline, tab and carriage return. -/
def isSpace (b : UInt8) : Bool :=
  b == ascii ' ' || b == ascii '\n' || b == ascii '\t' || b == ascii '\r'

def isDigit (b : UInt8) : Bool := ascii '0' ≤ b && b ≤ ascii '9'

namespace Decoder

/-- The next byte, which is at hand then; `none` at the end of the text. -/
def peek? : Decoder (Option UInt8) := fun input =>
  match input.bytes with
  | b :: _ => .ok (some b, input)
  | [] =>
    match input.source.next? with
    | .ok none => .ok (none, input)
    | .ok (some (b, behind)) => .ok (some b, ⟨[b], behind⟩)
    | .error _ => .error .unreadable

def drop : Decoder Unit := do
  let _ ← peek?
  modify fun input => { input with bytes := input.bytes.tail }

/-- Repeats a step until it gives a result. Each round but the last has to take a byte, so that the
rounds come to an end. -/
def loop {σ α : Type} (step : σ → Decoder (σ ⊕ α)) (s : σ) (input : Input) :
    Except Fault (α × Input) :=
  match step s input with
  | .error fault => .error fault
  | .ok (.inr a, rest) => .ok (a, rest)
  | .ok (.inl s', rest) =>
    if rest.size < input.size then loop step s' rest else .error .malformed
termination_by input.size

/-- Takes a byte of the class. The bytes before it stand in reverse. -/
def takeStep (p : UInt8 → Bool) (before : List UInt8) : Decoder (List UInt8 ⊕ List UInt8) := do
  match (← peek?).filter p with
  | some b =>
    drop
    return .inl (b :: before)
  | none => return .inr before.reverse

def takeWhile (p : UInt8 → Bool) : Decoder (List UInt8) := loop (takeStep p) []

/-- The next byte, which stays where it is and must exist. -/
def peek : Decoder UInt8 := do
  match ← peek? with
  | some b => return b
  | none => throw .unfinished

def next : Decoder UInt8 := do
  let b ← peek
  drop
  return b

/-- The next byte behind any space; `none` at the end of the text. -/
def token? : Decoder (Option UInt8) := do
  let _ ← takeWhile isSpace
  peek?

def token : Decoder UInt8 := do
  let _ ← takeWhile isSpace
  peek

def check (c : Bool) : Decoder Unit := if c then return () else throw .malformed

/-- Takes the byte behind any space, which must be the given one. -/
def expect (b : UInt8) : Decoder Unit := do
  check ((← token) == b)
  drop

def word : List UInt8 → Decoder Unit
  | [] => return ()
  | b :: bytes => do
    check ((← next) == b)
    word bytes

/-- Decodes a whole text: a value with nothing but space around it. -/
def run {α : Type} (d : Decoder α) (input : Input) : Except Fault α := do
  let (a, rest) ← d input
  let (behind, _) ← token? rest
  if behind.isNone then return a else throw .malformed

end Decoder

end Tagline.Json
