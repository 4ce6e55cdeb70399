import Tagline.Proofs.LineEnds
import Tagline.Source
import Tagline.Text.Utf8

/-!
# Lines of decoded bytes

Bytes can be decoded before or after they are cut into lines:

    (cutAfter (· == newline) bytes).map decodeLossy =
      cutAfter (· == '\n') (decodeLossy bytes)                     (map_decodeLossy_cutAfter)

This holds for all bytes, because the reader never takes a newline for a part of another character,
and never makes one out of other bytes. Both rest on what it knows inside a character (State.Sound).
-/

namespace Tagline.Utf8

open Delivery (newline)

/-- Inside a character, the next byte is not below 0x80, and the value of the whole will not be that
of a shorter form. -/
def State.Sound : State → Prop
  | .boundary => True
  | .inside more low _ value => 0x80 ≤ low ∧ (0 < value ∨ (0x80 < low ∧ 0 < more))

/-! ## One byte -/

theorem eq_of_ofNat_eq_newline {n : Nat} (h : Char.ofNat n = '\n') : n = 10 := by
  by_cases hvalid : n.isValidChar
  · have hn : (Char.ofNat n).toNat = n := by
      rw [Char.ofNat, dif_pos hvalid]
      rfl
    rw [← hn, h]
    rfl
  · have hzero : Char.ofNat n = '\x00' := by
      rw [Char.ofNat, dif_neg hvalid]
      rfl
    rw [hzero] at h
    exact absurd h (by decide)

/-- Behind the first byte of a range, the second is restricted; behind any other the value is not
zero. -/
theorem sound_restricted {b first second : UInt8} (hfirst : ¬ b < first) (hsecond : 0x80 < second)
    (more : Nat) (high : UInt8) :
    (State.inside (more + 1) (if b = first then second else 0x80) high
      (b.toNat - first.toNat)).Sound := by
  by_cases hb : b = first
  · rw [if_pos hb]
    exact ⟨UInt8.le_of_lt hsecond, Or.inr ⟨hsecond, Nat.succ_pos more⟩⟩
  · rw [if_neg hb]
    refine ⟨by decide, Or.inl ?_⟩
    rw [UInt8.lt_iff_toNat_lt] at hfirst
    rw [← UInt8.toNat_inj] at hb
    omega

theorem sound_start (b : UInt8) : (start b).1.Sound := by
  unfold start
  split
  · trivial
  split
  · trivial
  split
  · next hlow _ =>
    refine ⟨by decide, Or.inl ?_⟩
    simp only [UInt8.lt_iff_toNat_lt, UInt8.reduceToNat] at hlow
    omega
  split
  · next hlow _ => exact sound_restricted hlow (by decide) 0 _
  split
  · next hlow _ => exact sound_restricted hlow (by decide) 1 _
  · trivial

theorem newline_not_mem_start {b : UInt8} (hb : b ≠ newline) : some '\n' ∉ (start b).2 := by
  have hb' : b.toNat ≠ 10 := by
    intro heq
    exact hb (UInt8.toNat_inj.1 heq)
  unfold start
  split
  · intro hmem
    rw [List.mem_singleton, Option.some.injEq] at hmem
    exact hb' (eq_of_ofNat_eq_newline hmem.symm)
  split
  · simp
  split
  · simp
  split
  · simp
  split
  · simp
  · simp

section
variable {low high b : UInt8} {more value : Nat}

theorem step_last (hb : low ≤ b ∧ b ≤ high) :
    step (.inside 0 low high value) b =
      (.boundary, [some (Char.ofNat (value * 64 + (b.toNat - 0x80)))]) := by
  simp only [step, if_pos hb]

theorem step_inner (hb : low ≤ b ∧ b ≤ high) :
    step (.inside (more + 1) low high value) b =
      (.inside more 0x80 0xBF (value * 64 + (b.toNat - 0x80)), []) := by
  simp only [step, if_pos hb]

theorem step_fault (hb : ¬ (low ≤ b ∧ b ≤ high)) :
    step (.inside more low high value) b = ((start b).1, none :: (start b).2) := by
  simp only [step, if_neg hb]

end

/-- **A byte** keeps the reader sound. -/
theorem sound_step {s : State} (hs : s.Sound) (b : UInt8) : (step s b).1.Sound := by
  cases s with
  | boundary => exact sound_start b
  | inside more low high value =>
    by_cases hb : low ≤ b ∧ b ≤ high
    · cases more with
      | zero =>
        rw [step_last hb]
        trivial
      | succ more =>
        rw [step_inner hb]
        refine ⟨by decide, Or.inl ?_⟩
        -- the value grows by the first bits, or else by the byte, which is above 0x80
        rcases hs.2 with hvalue | ⟨hgt, -⟩
        · omega
        · have hbyte := hb.1
          simp only [UInt8.lt_iff_toNat_lt, UInt8.le_iff_toNat_le, UInt8.reduceToNat] at hgt hbyte
          omega
    · rw [step_fault hb]
      exact sound_start b

/-- Only a newline is read as one. -/
theorem newline_not_mem_step {s : State} (hs : s.Sound) {b : UInt8} (hb : b ≠ newline) :
    some '\n' ∉ (step s b).2 := by
  cases s with
  | boundary => exact newline_not_mem_start hb
  | inside more low high value =>
    by_cases hfit : low ≤ b ∧ b ≤ high
    · cases more with
      | succ more =>
        rw [step_inner hfit]
        simp
      | zero =>
        have hvalue : 0 < value := by simpa using hs.2
        rw [step_last hfit, List.mem_singleton, Option.some.injEq]
        intro hchar
        -- the value is 64 or more
        have hten := eq_of_ofNat_eq_newline hchar.symm
        omega
    · rw [step_fault hfit, List.mem_cons]
      rintro (hfault | hmem)
      · simp at hfault
      · exact newline_not_mem_start hb hmem

theorem not_fits_newline {more value : Nat} {low high : UInt8}
    (hs : (State.inside more low high value).Sound) : ¬ (low ≤ newline ∧ newline ≤ high) := by
  rintro ⟨hle, -⟩
  exact absurd (UInt8.le_trans hs.1 hle) (by decide)

/-- A newline is read as one, behind the fault of an unfinished character. -/
theorem exists_step_newline {s : State} (hs : s.Sound) :
    ∃ t, (step s newline).2 = t ++ [some '\n'] ∧ some '\n' ∉ t := by
  cases s with
  | boundary => exact ⟨[], rfl, by simp⟩
  | inside more low high value =>
    refine ⟨[none], ?_, by simp⟩
    rw [step_fault (not_fits_newline hs)]
    rfl

theorem step_newline_fst {s : State} (hs : s.Sound) : (step s newline).1 = .boundary := by
  apply step_newline
  rintro more low high value rfl
  exact hs.1

/-! ## All bytes -/

theorem decodeFrom_cons (s : State) (b : UInt8) (bytes : List UInt8) :
    decodeFrom s (b :: bytes) = (step s b).2 ++ decodeFrom (step s b).1 bytes := by
  cases s <;> rfl

/-- Without a newline, none is read. -/
theorem newline_not_mem_decodeFrom {s : State} (hs : s.Sound) {bytes : List UInt8}
    (hbytes : newline ∉ bytes) : some '\n' ∉ decodeFrom s bytes := by
  induction bytes generalizing s with
  | nil => cases s <;> simp [decodeFrom]
  | cons b bytes ih =>
    rw [List.mem_cons, not_or] at hbytes
    rw [decodeFrom_cons, List.mem_append, not_or]
    exact ⟨newline_not_mem_step hs (Ne.symm hbytes.1), ih (sound_step hs b) hbytes.2⟩

/-- **Behind a newline** the bytes are read on their own, and the newline ends what is read before. -/
theorem exists_decodeFrom_append_newline {s : State} (hs : s.Sound) {bytes : List UInt8}
    (hbytes : newline ∉ bytes) (behind : List UInt8) :
    ∃ t, some '\n' ∉ t ∧ decodeFrom s (bytes ++ [newline]) = t ++ [some '\n'] ∧
      decodeFrom s (bytes ++ newline :: behind) = t ++ some '\n' :: decodeFrom .boundary behind := by
  induction bytes generalizing s with
  | nil =>
    obtain ⟨t, hstep, hmem⟩ := exists_step_newline hs
    refine ⟨t, hmem, ?_, ?_⟩
    · rw [List.nil_append, decodeFrom_cons, hstep, step_newline_fst hs]
      simp [decodeFrom]
    · rw [List.nil_append, decodeFrom_cons, hstep, step_newline_fst hs]
      simp
  | cons b bytes ih =>
    rw [List.mem_cons, not_or] at hbytes
    obtain ⟨t, hmem, hline, hall⟩ := ih (sound_step hs b) hbytes.2
    refine ⟨(step s b).2 ++ t, ?_, ?_, ?_⟩
    · rw [List.mem_append, not_or]
      exact ⟨newline_not_mem_step hs (Ne.symm hbytes.1), hmem⟩
    · rw [List.cons_append, decodeFrom_cons, hline, List.append_assoc]
    · rw [List.cons_append, decodeFrom_cons, hall, List.append_assoc]

theorem decodeFrom_inside_ne_nil (more value : Nat) (low high : UInt8) (bytes : List UInt8) :
    decodeFrom (.inside more low high value) bytes ≠ [] := by
  induction bytes generalizing more value low high with
  | nil => simp [decodeFrom]
  | cons b bytes ih =>
    rw [decodeFrom_cons]
    by_cases hfit : low ≤ b ∧ b ≤ high
    · cases more with
      | zero => simp [step_last hfit]
      | succ more =>
        rw [step_inner hfit]
        exact ih more _ _ _
    · simp [step_fault hfit]

theorem start_cases (b : UInt8) :
    (start b).2 ≠ [] ∨ ∃ more low high value, (start b).1 = .inside more low high value := by
  unfold start
  split
  · exact Or.inl (by simp)
  split
  · exact Or.inl (by simp)
  split
  · exact Or.inr ⟨_, _, _, _, rfl⟩
  split
  · exact Or.inr ⟨_, _, _, _, rfl⟩
  split
  · exact Or.inr ⟨_, _, _, _, rfl⟩
  · exact Or.inl (by simp)

/-- Some bytes are read as some characters. -/
theorem decodeFrom_ne_nil {bytes : List UInt8} (hne : bytes ≠ []) : decodeFrom .boundary bytes ≠ [] := by
  obtain ⟨b, bytes, rfl⟩ := List.exists_cons_of_ne_nil hne
  rw [decodeFrom_cons]
  rcases start_cases b with hout | ⟨more, low, high, value, hinside⟩
  · exact List.append_ne_nil_of_left_ne_nil hout _
  · have hstep : (step .boundary b).1 = .inside more low high value := hinside
    rw [hstep]
    exact List.append_ne_nil_of_right_ne_nil _ (decodeFrom_inside_ne_nil more value low high bytes)

/-! ## Lines -/

theorem newline_not_mem_map_getD {l : List (Option Char)} (hl : some '\n' ∉ l) :
    '\n' ∉ l.map (fun c? => c?.getD '\uFFFD') := by
  intro hmem
  obtain ⟨c?, hc, heq⟩ := List.mem_map.1 hmem
  cases c? with
  | none => exact absurd heq (by decide)
  | some c =>
    have hchar : c = '\n' := heq
    rw [hchar] at hc
    exact hl hc

/-- **Decoding commutes with cutting into lines.** -/
theorem map_decodeLossy_cutAfter (bytes : List UInt8) :
    (Text.cutAfter (· == newline) bytes).map decodeLossy =
      Text.cutAfter (· == '\n') (decodeLossy bytes) := by
  induction hlen : bytes.length using Nat.strongRecOn generalizing bytes with
  | _ n ih =>
    by_cases hmem : newline ∈ bytes
    · obtain ⟨line, behind, rfl, hline⟩ := List.eq_append_cons_of_mem hmem
      obtain ⟨t, ht, hdecode, hall⟩ :=
        exists_decodeFrom_append_newline (s := .boundary) trivial hline behind
      have hshort : behind.length < n := by
        rw [← hlen, List.length_append, List.length_cons]
        omega
      have hends := newline_not_mem_map_getD ht
      rw [Text.cutAfter_append_cons hline, List.map_cons, ih _ hshort behind rfl]
      simp only [decodeLossy, hdecode, hall, List.map_append, List.map_cons, Option.getD_some]
      rw [Text.cutAfter_append_cons hends]
      rfl
    · have hends := newline_not_mem_map_getD (newline_not_mem_decodeFrom (s := .boundary) trivial hmem)
      have hpieces : Text.cutAfter (· == '\n') (decodeLossy bytes) =
          if decodeLossy bytes = [] then [] else [decodeLossy bytes] := Text.cutAfter_of_not_mem hends
      rw [Text.cutAfter_of_not_mem hmem, hpieces]
      by_cases hnil : bytes = []
      · subst hnil
        rfl
      · have hne : decodeLossy bytes ≠ [] := by
          unfold decodeLossy
          rw [ne_eq, List.map_eq_nil_iff]
          exact decodeFrom_ne_nil hnil
        rw [if_neg hnil, if_neg hne]
        rfl

end Tagline.Utf8
