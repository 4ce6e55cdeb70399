import Tagline.Text.Basic

/-!
# UTF-8

Bytes are read one at a time. Between two bytes the reader stands either between two characters or
inside one, and then it knows how many bytes are missing and which range the next one must lie in.
A byte outside that range ends the attempt: what was read of it counts as one fault, and the byte is
taken as the start of a new character. So each fault covers as many bytes as could still have begun
a character, and a newline is never lost in one.
-/

namespace Tagline.Utf8

/-- Where the reader stands between two bytes. -/
inductive State where
  | boundary
  /-- Inside a character of which `more + 1` bytes are missing. The next byte lies from `low` to
  `high`, and the bits read so far have the value `value`. -/
  | inside (more : Nat) (low high : UInt8) (value : Nat)
deriving DecidableEq

/-- The effect of a byte between two characters: the next state, and what the byte completes, where a
fault is `none`. The second byte of a longer form is restricted so that each character has one form only
and surrogates have none. -/
def start (b : UInt8) : State × List (Option Char) :=
  if b < 0x80 then (.boundary, [some (Char.ofNat b.toNat)])
  else if b < 0xC2 then (.boundary, [none])
  else if b < 0xE0 then (.inside 0 0x80 0xBF (b.toNat - 0xC0), [])
  else if b < 0xF0 then
    (.inside 1 (if b = 0xE0 then 0xA0 else 0x80) (if b = 0xED then 0x9F else 0xBF)
      (b.toNat - 0xE0), [])
  else if b < 0xF5 then
    (.inside 2 (if b = 0xF0 then 0x90 else 0x80) (if b = 0xF4 then 0x8F else 0xBF)
      (b.toNat - 0xF0), [])
  else (.boundary, [none])

def step : State → UInt8 → State × List (Option Char)
  | .boundary, b => start b
  | .inside more low high value, b =>
    if low ≤ b ∧ b ≤ high then
      let value := value * 64 + (b.toNat - 0x80)
      match more with
      | 0 => (.boundary, [some (Char.ofNat value)])
      | more + 1 => (.inside more 0x80 0xBF value, [])
    else ((start b).1, none :: (start b).2)

/-- The characters and faults that the remaining bytes complete. -/
def decodeFrom : State → List UInt8 → List (Option Char)
  | .boundary, [] => []
  | .inside .., [] => [none]
  | s, b :: bs => (step s b).2 ++ decodeFrom (step s b).1 bs

def decode? (bytes : List UInt8) : Option Text := (decodeFrom .boundary bytes).mapM id

/-- The text of some bytes, with U+FFFD for each fault. -/
def decodeLossy (bytes : List UInt8) : Text :=
  (decodeFrom .boundary bytes).map fun c? => c?.getD '\uFFFD'

def encode (t : Text) : List UInt8 := t.flatMap String.utf8EncodeChar

/-! ## Lemmas -/

@[simp] theorem encode_nil : encode [] = [] := rfl

@[simp] theorem encode_cons (c : Char) (t : Text) :
    encode (c :: t) = String.utf8EncodeChar c ++ encode t := rfl

@[simp] theorem encode_append (s t : Text) : encode (s ++ t) = encode s ++ encode t := by
  simp [encode]

/-- The size of a text in bytes is the number of its bytes. -/
theorem length_encode (t : Text) : (encode t).length = Text.byteSize t := by
  induction t with
  | nil => rfl
  | cons c t ih => simp [ih]

/-- A newline starts afresh, wherever the reader stands. -/
theorem step_newline (s : State) (h : ∀ more low high value, s = .inside more low high value →
    0x80 ≤ low) : (step s 0x0A).1 = .boundary := by
  cases s with
  | boundary => rfl
  | inside more low high value =>
    have hlow := h more low high value rfl
    simp only [step]
    rw [if_neg]
    · rfl
    · rintro ⟨hle, -⟩
      exact absurd (UInt8.le_trans hlow hle) (by decide)

end Tagline.Utf8
