import Mathlib.Data.List.Infix
import Tagline.Proofs.ByteBoundaries
import Tagline.Proofs.Placed

/-!
# Slices

A cursor holds the text that is left of its line. A slicer does without: it holds the bytes of the line
and how many of them are passed, and cuts off what is left each time it looks at it. Such a cut fails
past the end of the bytes and inside a character, and a computation with a slicer fails with it.

On the bytes of a line, no operation of a slicer fails at a place where a cursor can stand. It gives
what the operation of the cursor gives, and ends at the place where the cursor ends

    r (c.slicer line) = some (a, d.slicer line)                    (Follows.run_eq)

and this is kept when one computation follows another (Follows.bind). A loop of a slicer fails as well
if one of its rounds passes nothing, so that it ends is part of what is shown.
-/

namespace Tagline

/-! ## Definitions -/

/-- The bytes of a line, and how many of them are passed. -/
structure Slicer where
  bytes : List UInt8
  offset : Nat
deriving DecidableEq, Repr

def Slicer.ofLine (line : Text) : Slicer := ⟨Utf8.encode line, 0⟩

def Slicer.left (s : Slicer) : Nat := s.bytes.length - s.offset

/-- A computation with a slicer. It fails where the bytes are cut inside a character or past their
end. -/
abbrev Slicing (α : Type) := StateT Slicer Option α

namespace Slicing

/-- Repeats a step until it gives a result. Each round but the last has to pass some bytes, so that
the rounds come to an end. -/
def loop {σ α : Type} (step : σ → Slicing (σ ⊕ α)) (x : σ) (s : Slicer) : Option (α × Slicer) :=
  match step x s with
  | none => none
  | some (.inr a, behind) => some (a, behind)
  | some (.inl y, behind) => if behind.left < s.left then loop step y behind else none
termination_by s.left

def rest : Slicing Text := fun s => (Utf8.cut? s.bytes s.offset).map fun (_, behind) => (behind, s)

def advance (n : Nat) : Slicing Unit := fun s => some ((), { s with offset := s.offset + n })

def peek : Slicing (Option Char) := do return (← rest).head?

def bump : Slicing (Option Char) := do
  match ← peek with
  | some a =>
    advance a.utf8Size
    return some a
  | none => return none

/-- Passes a character of a class, if one stands at the offset. -/
def skipStep (p : Char → Bool) : Slicing (Unit ⊕ Unit) := do
  match ← peek with
  | some a =>
    if p a then
      advance a.utf8Size
      return .inl ()
    else return .inr ()
  | none => return .inr ()

/-- Passes the characters of a class, one by one. -/
def skipWhile (p : Char → Bool) : Slicing Unit := loop (fun _ => skipStep p) ()

def skipBlank : Slicing Unit := skipWhile Text.isBlank

def skipToEnd : Slicing Unit := fun s => some ((), { s with offset := s.bytes.length })

/-- The text behind a literal, if what is left starts with its bytes. It is cut off what is left. -/
def behind? (literal : Text) : Slicing (Option Text) := do
  let left := Utf8.encode (← rest)
  if (Utf8.encode literal).isPrefixOf left then
    let (_, behind) ← (Utf8.cut? left (Utf8.encode literal).length : Option (Text × Text))
    return some behind
  else return none

/-- Passes a literal, if it stands at the offset as a token. -/
def eat (literal : Text) : Slicing Bool := do
  match ← behind? literal with
  | some behind =>
    if Text.endsToken behind then
      advance (Utf8.encode literal).length
      return true
    else return false
  | none => return false

/-- Passes the first of the literals that stands at the offset as a token. -/
def eatAny : List Text → Slicing (Option Text)
  | [] => return none
  | literal :: literals => do
    if ← eat literal then return some literal
    else eatAny literals

end Slicing

namespace Cursor

def slicer (line : Text) (c : Cursor) : Slicer := ⟨Utf8.encode line, c.offset⟩

theorem slicer_ofLine (line : Text) : (ofLine line).slicer line = Slicer.ofLine line := rfl

/-- At a cursor, the bytes of its line are cut into what is passed and what is left. -/
theorem StandsIn.exists_cut? {line : Text} {c : Cursor} (hc : c.StandsIn line) :
    ∃ before, Utf8.cut? (Utf8.encode line) c.offset = some (before, c.rest) ∧
      line = before ++ c.rest := by
  obtain ⟨before, hline, hsize⟩ := hc
  refine ⟨before, ?_, hline⟩
  rw [Utf8.cut?_encode, hline, ← hsize]
  exact Text.splitAtByte?_byteSize_append before c.rest

theorem StandsIn.left_slicer {line : Text} {c : Cursor} (hc : c.StandsIn line) :
    (c.slicer line).left = Text.byteSize c.rest := by
  obtain ⟨before, hline, hsize⟩ := hc
  show (Utf8.encode line).length - c.offset = _
  rw [Utf8.length_encode, hline, Text.byteSize_append, hsize, Nat.add_sub_cancel_left]

/-- Of two cursors in a line, the one with fewer characters behind it has fewer bytes left. -/
theorem StandsIn.left_lt {line : Text} {c d : Cursor} (hc : c.StandsIn line) (hd : d.StandsIn line)
    (hshorter : d.rest.length < c.rest.length) : (d.slicer line).left < (c.slicer line).left := by
  rw [hc.left_slicer, hd.left_slicer]
  obtain ⟨before, hline, -⟩ := hc
  obtain ⟨further, hfurther, -⟩ := hd
  rcases List.append_eq_append_iff.1 (hline.symm.trans hfurther) with ⟨w, -, hw⟩ | ⟨w, -, hw⟩
  · cases w with
    | nil => simp [hw] at hshorter
    | cons x w =>
      have hpos := x.utf8Size_pos
      rw [hw, Text.byteSize_append, Text.byteSize_cons]
      omega
  · rw [hw, List.length_append] at hshorter
    omega

theorem peek?_of_nil {c : Cursor} (hrest : c.rest = []) : c.peek? = none := by
  rw [peek?, hrest]
  rfl

section
variable {p : Char → Bool} {offset : Nat} {x : Char} {t : Text}

theorem peek?_of_cons {c : Cursor} (hrest : c.rest = x :: t) : c.peek? = some x := by
  rw [peek?, hrest]
  rfl

theorem skipWhile_cons_of_pos (hx : p x = true) :
    skipWhile p ⟨offset, x :: t⟩ = skipWhile p ⟨offset + x.utf8Size, t⟩ := by
  simp [skipWhile, hx, Nat.add_assoc]

theorem skipWhile_cons_of_neg (hx : ¬ p x = true) : skipWhile p ⟨offset, x :: t⟩ = ⟨offset, x :: t⟩ := by
  simp [skipWhile, hx]

end

end Cursor

namespace Slicing

/-- On the bytes of a line, a computation does not fail at a cursor: it gives an answer, and ends at a
cursor in the line. -/
structure Follows {α : Type} (line : Text) (r : Slicing α) (c : Cursor) (a : α) (d : Cursor) : Prop where
  run_eq : r (c.slicer line) = some (a, d.slicer line)
  standsIn : d.StandsIn line

variable {α β : Type} {line : Text} {c d e : Cursor} {a : α} {b : β}

theorem Follows.pure (hc : c.StandsIn line) (a : α) : Follows line (pure a) c a c := ⟨rfl, hc⟩

theorem Follows.bind {r : Slicing α} {f : α → Slicing β} (hr : Follows line r c a d)
    (hf : Follows line (f a) d b e) : Follows line (r >>= f) c b e where
  run_eq := by
    show (r (c.slicer line)).bind (fun p => f p.1 p.2) = _
    rw [hr.run_eq]
    exact hf.run_eq
  standsIn := hf.standsIn

theorem Follows.exists_bind {r : Slicing α} {f : α → Slicing β} (hr : Follows line r c a d)
    (hf : ∃ e, Follows line (f a) d b e) : ∃ e, Follows line (r >>= f) c b e := by
  obtain ⟨e, hf⟩ := hf
  exact ⟨e, hr.bind hf⟩

section
variable {σ : Type} {step : σ → Slicing (σ ⊕ α)} {x y : σ}

/-- The last round of a loop. -/
theorem Follows.loop_done (hlast : Follows line (step x) c (.inr a) d) :
    Follows line (loop step x) c a d where
  run_eq := by
    rw [loop]
    simp only [hlast.run_eq]
  standsIn := hlast.standsIn

/-- A round of a loop that passes some characters, and the rounds behind it. -/
theorem Follows.loop_round (hround : Follows line (step x) c (.inl y) d) (hc : c.StandsIn line)
    (hshorter : d.rest.length < c.rest.length) (hbehind : Follows line (loop step y) d a e) :
    Follows line (loop step x) c a e where
  run_eq := by
    have hleft := hc.left_lt hround.standsIn hshorter
    rw [loop]
    simp only [hround.run_eq, if_pos hleft]
    exact hbehind.run_eq
  standsIn := hbehind.standsIn

end

section
variable (hc : c.StandsIn line)

include hc

theorem follows_rest : Follows line rest c c.rest c where
  run_eq := by
    obtain ⟨before, hcut, -⟩ := hc.exists_cut?
    show (Utf8.cut? (Utf8.encode line) c.offset).map _ = _
    rw [hcut]
    rfl
  standsIn := hc

/-- Passing the bytes of a text that stands at a cursor. -/
theorem follows_advance {w t : Text} (hrest : c.rest = w ++ t) :
    Follows line (advance (Text.byteSize w)) c () ⟨c.offset + Text.byteSize w, t⟩ where
  run_eq := rfl
  standsIn := by
    obtain ⟨before, hline, hsize⟩ := hc
    refine ⟨before ++ w, ?_, ?_⟩
    · rw [hline, hrest, List.append_assoc]
    · rw [Text.byteSize_append, hsize]

theorem follows_peek : Follows line peek c c.peek? c := (follows_rest hc).bind (.pure hc _)

end

/-- A character at a cursor is passed by as many bytes as it has. -/
theorem follows_advance_bump (hc : c.StandsIn line) {x : Char} {t : Text} (hrest : c.rest = x :: t) :
    Follows line (advance x.utf8Size) c () c.bump := by
  have hbump : c.bump = ⟨c.offset + Text.byteSize [x], t⟩ := by
    rw [Cursor.bump, hrest]
    rfl
  have hword : c.rest = [x] ++ t := hrest
  rw [hbump]
  exact follows_advance hc hword

theorem follows_bump (hc : c.StandsIn line) : Follows line bump c c.peek? c.bump := by
  refine (follows_peek hc).bind ?_
  cases hrest : c.rest with
  | nil =>
    have hbump : c.bump = c := by rw [Cursor.bump, hrest]
    rw [Cursor.peek?_of_nil hrest, hbump]
    exact .pure hc none
  | cons x t =>
    rw [Cursor.peek?_of_cons hrest]
    exact (follows_advance_bump hc hrest).bind (.pure hc.bump (some x))

theorem follows_skipWhile (p : Char → Bool) (hc : c.StandsIn line) :
    Follows line (skipWhile p) c () (c.skipWhile p) := by
  obtain ⟨offset, rest⟩ := c
  induction rest generalizing offset with
  | nil => exact .loop_done ((follows_peek hc).bind (.pure hc _))
  | cons x t ih =>
    by_cases hx : p x = true
    · rw [Cursor.skipWhile_cons_of_pos hx]
      refine .loop_round ((follows_peek hc).bind ?_) hc (Nat.lt_succ_self t.length) (ih _ hc.bump)
      show Follows line (if p x = true then _ else _) _ _ _
      rw [if_pos hx]
      exact (follows_advance_bump hc rfl).bind (.pure hc.bump _)
    · rw [Cursor.skipWhile_cons_of_neg hx]
      refine .loop_done ((follows_peek hc).bind ?_)
      show Follows line (if p x = true then _ else _) _ _ _
      rw [if_neg hx]
      exact .pure hc _

theorem follows_skipBlank (hc : c.StandsIn line) : Follows line skipBlank c () c.skipBlank :=
  follows_skipWhile Text.isBlank hc

theorem follows_skipToEnd (hc : c.StandsIn line) : Follows line skipToEnd c () c.skipToEnd where
  run_eq := by
    obtain ⟨before, hline, hsize⟩ := hc
    show some ((), Slicer.mk (Utf8.encode line) (Utf8.encode line).length) = _
    rw [Utf8.length_encode, hline, Text.byteSize_append, hsize]
    rfl
  standsIn := by
    obtain ⟨before, hline, hsize⟩ := hc
    refine ⟨line, ?_, ?_⟩
    · rw [Cursor.skipToEnd, List.append_nil]
    · rw [hline, Text.byteSize_append, hsize]
      rfl

theorem follows_behind? (literal : Text) (hc : c.StandsIn line) :
    Follows line (behind? literal) c (literal.isPrefixOf? c.rest) c := by
  refine (follows_rest hc).bind ?_
  show Follows line (if (Utf8.encode literal).isPrefixOf (Utf8.encode c.rest) = true then _ else _) c _ c
  by_cases hstarts : literal <+: c.rest
  · obtain ⟨t, ht⟩ := hstarts
    have hbytes : (Utf8.encode literal).isPrefixOf (Utf8.encode c.rest) = true := by
      rw [List.isPrefixOf_iff_prefix, Utf8.encode_isPrefix_iff, ← ht]
      exact List.prefix_append literal t
    have hcut : Utf8.cut? (Utf8.encode c.rest) (Utf8.encode literal).length = some (literal, t) := by
      rw [Utf8.cut?_encode, Utf8.length_encode, ← ht]
      exact Text.splitAtByte?_byteSize_append literal t
    rw [if_pos hbytes, List.isPrefixOf?_eq_some_iff_append_eq.2 ht]
    refine ⟨?_, hc⟩
    show ((Utf8.cut? (Utf8.encode c.rest) (Utf8.encode literal).length).bind _).bind _ = _
    rw [hcut]
    rfl
  · have hbytes : ¬ (Utf8.encode literal).isPrefixOf (Utf8.encode c.rest) = true := by
      rwa [List.isPrefixOf_iff_prefix, Utf8.encode_isPrefix_iff]
    have hnone : literal.isPrefixOf? c.rest = none := by
      cases hp : literal.isPrefixOf? c.rest with
      | none => rfl
      | some t => exact absurd ⟨t, List.append_eq_of_isPrefixOf?_eq_some hp⟩ hstarts
    rw [if_neg hbytes, hnone]
    exact .pure hc none

theorem follows_eat (literal : Text) (hc : c.StandsIn line) :
    Follows line (eat literal) c (c.eat? literal).isSome ((c.eat? literal).getD c) := by
  refine (follows_behind? literal hc).bind ?_
  cases hp : literal.isPrefixOf? c.rest with
  | none =>
    have hnone : c.eat? literal = none := by
      cases he : c.eat? literal with
      | none => rfl
      | some d =>
        rw [List.isPrefixOf?_eq_some_iff_append_eq.2 (Cursor.eat?_eq_some.1 he).1.symm] at hp
        cases hp
    rw [hnone]
    exact .pure hc false
  | some t =>
    have hrest : c.rest = literal ++ t := (List.append_eq_of_isPrefixOf?_eq_some hp).symm
    show Follows line (if Text.endsToken t = true then _ else _) c _ _
    by_cases ht : Text.endsToken t = true
    · have hsome : c.eat? literal = some ⟨c.offset + Text.byteSize literal, t⟩ :=
        Cursor.eat?_eq_some.2 ⟨hrest, ht, rfl⟩
      rw [if_pos ht, hsome, Utf8.length_encode]
      have hadvance := follows_advance hc hrest
      exact hadvance.bind (.pure hadvance.standsIn true)
    · have hnone : c.eat? literal = none := by
        cases he : c.eat? literal with
        | none => rfl
        | some d =>
          obtain ⟨hd, hends, -⟩ := Cursor.eat?_eq_some.1 he
          rw [← List.append_cancel_left (hrest.symm.trans hd)] at hends
          exact absurd hends ht
      rw [if_neg ht, hnone]
      exact .pure hc false

theorem follows_eatAny (literals : List Text) (hc : c.StandsIn line) :
    Follows line (eatAny literals) c ((c.eatAny? literals).map (·.1))
      (((c.eatAny? literals).map (·.2)).getD c) := by
  induction literals with
  | nil => exact .pure hc none
  | cons literal literals ih =>
    refine (follows_eat literal hc).bind ?_
    rw [Cursor.eatAny?, List.findSome?_cons]
    cases hd : c.eat? literal with
    | none => exact ih
    | some d => exact .pure (hc.eat? hd) (some literal)

end Slicing

end Tagline
