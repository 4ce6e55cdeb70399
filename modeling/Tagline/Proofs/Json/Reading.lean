import Tagline.Json.Tag
import Tagline.Proofs.EncodedTexts

/-!
# Reading what is written

A decoder takes a text if it finds the value of the text in front of any input, and leaves the input
behind it

    d (rest.prepend t) = .ok (a, rest)                             (Decoder.Takes)

A numeral does not show where it ends, so a decoder of numbers reads a text only where the value is
delimited: by a comma or a closing bracket (Decoder.Reads). Decoders are run step by step: a step that
succeeds hands its value and its input to what follows (bind_of_ok), and a loop goes on as long as its
steps take bytes (loop_of_inl, loop_of_inr).
-/

namespace Tagline.Json

/-! ## Definitions -/

namespace Input

def push (i : Input) (b : UInt8) : Input := { i with bytes := b :: i.bytes }

def prepend (i : Input) (t : Text) : Input := { i with bytes := Utf8.encode t ++ i.bytes }

/-- Whether a value that shows no end of its own ends in front of the input. -/
def Delimits (i : Input) : Prop :=
  ∃ b j, i = push j b ∧ (b = ascii ',' ∨ b = ascii '\x7d' ∨ b = ascii ']')

end Input

namespace Decoder

variable {α β : Type}

/-- The decoder takes the text from the front of any input. -/
def Takes (d : Decoder α) (t : Text) (a : α) : Prop :=
  ∀ rest : Input, d (rest.prepend t) = .ok (a, rest)

/-- The decoder takes the text where the value is delimited. -/
def Reads (d : Decoder α) (t : Text) (a : α) : Prop :=
  ∀ rest : Input, rest.Delimits → d (rest.prepend t) = .ok (a, rest)

theorem Takes.reads {d : Decoder α} {t : Text} {a : α} (h : d.Takes t a) : d.Reads t a :=
  fun rest _ => h rest

end Decoder

/-! ## ASCII -/

theorem toNat_ascii {c : Char} (hc : c.toNat < 0x80) : (ascii c).toNat = c.toNat :=
  Utf8.toNat_ofNat_byte (by omega)

theorem ascii_ne {c d : Char} (hc : c.toNat < 0x80) (hd : d.toNat < 0x80) (h : c ≠ d) :
    ascii c ≠ ascii d := by
  intro heq
  have hsame : c.toNat = d.toNat := by rw [← toNat_ascii hc, heq, toNat_ascii hd]
  exact h (Char.toNat_inj.1 hsame)

/-! ## Inputs -/

namespace Input

variable (i : Input) {c : Char} (t : Text)

@[simp] theorem prepend_nil : i.prepend [] = i := rfl

theorem ofText_eq_prepend : ofText t = (ofText []).prepend t := by
  show ofText t = ⟨Utf8.encode t ++ [], _⟩
  rw [List.append_nil]
  rfl

theorem prepend_append (s : Text) : i.prepend (s ++ t) = (i.prepend t).prepend s := by
  simp only [prepend, Utf8.encode_append, List.append_assoc]

theorem utf8EncodeChar_of_ascii (hc : c.toNat < 0x80) : String.utf8EncodeChar c = [ascii c] := by
  rw [Utf8.utf8EncodeChar_eq, if_pos (by omega)]
  rfl

/-- An ASCII character is one byte. -/
theorem prepend_cons (hc : c.toNat < 0x80) : i.prepend (c :: t) = (i.prepend t).push (ascii c) := by
  simp only [prepend, push, Utf8.encode_cons, utf8EncodeChar_of_ascii hc]
  rfl

/-- In ASCII, the bytes are the characters. -/
theorem prepend_of_ascii {t : Text} (ht : ∀ c ∈ t, c.toNat < 0x80) :
    i.prepend t = { i with bytes := t.map ascii ++ i.bytes } := by
  induction t with
  | nil => rfl
  | cons c t ih =>
    rw [i.prepend_cons t (ht c List.mem_cons_self), ih fun d hd => ht d (List.mem_cons_of_mem c hd)]
    rfl

theorem delimits_push {b : UInt8} (hb : b = ascii ',' ∨ b = ascii '\x7d' ∨ b = ascii ']') :
    (i.push b).Delimits := ⟨b, i, rfl, hb⟩

theorem size_lt_push (b : UInt8) : i.size < (i.push b).size := by
  simp only [size, push, List.length_cons]
  omega

/-- Every text in front makes an input longer. -/
theorem size_lt_prepend (ht : t ≠ []) : i.size < (i.prepend t).size := by
  obtain ⟨c, u, rfl⟩ := List.exists_cons_of_ne_nil ht
  have hpos : 0 < c.utf8Size := c.utf8Size_pos
  simp only [size, prepend, List.length_append, Utf8.length_encode, Text.byteSize_cons]
  omega

end Input

/-! ## Steps -/

namespace Decoder

variable {α β σ : Type}

/-- A step that succeeds hands over to what follows. -/
theorem bind_of_ok {d : Decoder α} {f : α → Decoder β} {i j : Input} {a : α}
    (h : d i = .ok (a, j)) : (d >>= f) i = f a j := by
  show (d i).bind (fun p => f p.1 p.2) = _
  rw [h]
  rfl

/-- A step that fails ends all. -/
theorem bind_of_error {d : Decoder α} {f : α → Decoder β} {i : Input} {fault : Fault}
    (h : d i = .error fault) : (d >>= f) i = .error fault := by
  show (d i).bind (fun p => f p.1 p.2) = _
  rw [h]
  rfl

theorem map_of_ok {d : Decoder α} {f : α → β} {i j : Input} {a : α} (h : d i = .ok (a, j)) :
    (f <$> d) i = .ok (f a, j) := by
  show (d i).bind _ = _
  rw [h]
  rfl

theorem map_of_error {d : Decoder α} {f : α → β} {i : Input} {fault : Fault}
    (h : d i = .error fault) : (f <$> d) i = .error fault := by
  show (d i).bind _ = _
  rw [h]
  rfl

/-! ## Loops -/

section
variable {step : σ → Decoder (σ ⊕ α)} {s s' : σ} {i j : Input} {a : α} {fault : Fault}

theorem loop_of_error (h : step s i = .error fault) : loop step s i = .error fault := by
  rw [loop]
  simp only [h]

theorem loop_of_inr (h : step s i = .ok (.inr a, j)) : loop step s i = .ok (a, j) := by
  rw [loop]
  simp only [h]

theorem loop_of_inl (h : step s i = .ok (.inl s', j)) (hlt : j.size < i.size) :
    loop step s i = loop step s' j := by
  rw [loop]
  simp only [h, if_pos hlt]

end

/-! ## Bytes -/

section
variable (i : Input) {b : UInt8}

@[simp] theorem pure_apply (a : α) : (pure a : Decoder α) i = .ok (a, i) := rfl

@[simp] theorem peek?_push : peek? (i.push b) = .ok (some b, i.push b) := rfl

@[simp] theorem drop_push : drop (i.push b) = .ok ((), i) := rfl

@[simp] theorem next_push : next (i.push b) = .ok (b, i) := rfl

@[simp] theorem check_true : check true i = .ok ((), i) := rfl

/-- A byte of the class is taken. -/
theorem loop_takeStep_push {p : UInt8 → Bool} (hb : p b = true) (before : List UInt8) :
    loop (takeStep p) before (i.push b) = loop (takeStep p) (b :: before) i := by
  refine loop_of_inl ?_ (i.size_lt_push b)
  rw [takeStep, bind_of_ok (peek?_push i), Option.filter_some_pos hb]
  rfl

/-- The first byte outside the class, or the end, is where taking stops. -/
theorem loop_takeStep_stop {p : UInt8 → Bool} {b? : Option UInt8} {j : Input}
    (hpeek : peek? i = .ok (b?, j)) (hb? : b?.filter p = none) (before : List UInt8) :
    loop (takeStep p) before i = .ok (before.reverse, j) := by
  refine loop_of_inr ?_
  rw [takeStep, bind_of_ok hpeek, hb?]
  rfl

theorem token_push (hb : isSpace b = false) : token (i.push b) = .ok (b, i.push b) := by
  have hspace : takeWhile isSpace (i.push b) = .ok ([], i.push b) :=
    loop_takeStep_stop _ (peek?_push i) (by simp [hb]) []
  rw [token, bind_of_ok hspace]
  rfl

/-- Nothing stands at the end of a text. -/
theorem takeWhile_ofText_nil (p : UInt8 → Bool) :
    takeWhile p (.ofText []) = .ok ([], .ofText []) := loop_takeStep_stop _ rfl rfl []

/-- Whoever looks for a token at the end of a text asks for more. -/
theorem token_bind_ofText_nil (f : UInt8 → Decoder α) :
    (token >>= f) (.ofText []) = .error .unfinished := by
  refine bind_of_error ?_
  rw [token, bind_of_ok (takeWhile_ofText_nil isSpace)]
  rfl

theorem expect_push (hb : isSpace b = false) : expect b (i.push b) = .ok ((), i) := by
  rw [expect, bind_of_ok (token_push i hb)]
  have hcheck : check (b == b) (i.push b) = .ok ((), i.push b) := by
    rw [beq_self_eq_true, check_true]
  rw [bind_of_ok hcheck, drop_push]

end

end Decoder

end Tagline.Json
