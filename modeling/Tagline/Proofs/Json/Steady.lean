import Tagline.Proofs.Json.Reading

/-!
# Decoders that read byte by byte

The bytes of a text are all at hand. Those of a source are taken from it one by one, in front of its end
or its failure (Source.contents_eq). A decoder is steady if it does the same in both cases: on any
input that delivers some bytes, it gives what it gives on the text of these bytes, and what is left
delivers what is left of the text

    i.Delivers bytes fails → Agrees fails (d i) (d ⟨bytes, []⟩)     (Decoder.Steady)

If the source fails, a decoder may meet the failure instead. It is met only where a byte is asked for, and
it takes the place of the end: only a text that ends can be unfinished.

All decoders look at their input through `peek?` and `drop`, and these are steady. Steadiness is kept by
sequences, choices and loops. A whole text is decoded only when its end has been seen, so on a source
that fails there is either a fault in front of the failure, or the failure (Steady.run_cases).
-/

namespace Tagline

/-! ## Sources -/

namespace Source

/-- **The next byte** splits what a source delivers. -/
theorem contents_eq (source : Source) :
    source.contents =
      match source.next? with
      | .ok none => ([], none)
      | .ok (some (b, behind)) => (b :: behind.contents.1, behind.contents.2)
      | .error message => ([], some message) := by
  fun_induction next? source with
  | case1 => rfl
  | case2 chunks ih => exact ih
  | case3 => rfl
  | case4 => rfl
  | case5 chunks ih => exact ih

theorem size_eq (source : Source) : source.size = source.contents.1.length := by
  induction source with
  | nil => rfl
  | cons chunk chunks ih =>
    cases chunk with
    | data bytes => rw [size, contents, List.length_append, ih]
    | failure message => rfl
    | interruption => exact ih

end Source

namespace Json

/-! ## Definitions -/

/-- The bytes that an input delivers, those at hand first, and whether a failure follows them. -/
structure Input.Delivers (i : Input) (bytes : List UInt8) (fails : Bool) : Prop where
  bytes_eq : i.bytes ++ i.source.contents.1 = bytes
  fails_eq : i.source.contents.2.isSome = fails

/-- What a look at the next byte finds, where some bytes are delivered. -/
inductive Input.Next : Input → List UInt8 → Bool → Prop
  | byte {i j : Input} {b : UInt8} {bytes : List UInt8} {fails : Bool}
    (hpeek : Decoder.peek? i = .ok (some b, j.push b)) (hj : j.Delivers bytes fails) :
    Next i (b :: bytes) fails
  | ended {source : Source} (hpeek : Decoder.peek? (.ofSource source) = .ok (none, .ofSource source)) :
    Next (.ofSource source) [] false
  | failed {i : Input} (hpeek : Decoder.peek? i = .error .unreadable) : Next i [] true

namespace Decoder

variable {α β σ : Type}

/-- The result on an input that delivers some bytes, against the result on the text of these bytes. -/
inductive Agrees (fails : Bool) : Except Fault (α × Input) → Except Fault (α × Input) → Prop
  /-- The failure is met. -/
  | unreadable (hfails : fails = true) (result : Except Fault (α × Input)) :
    Agrees fails (.error .unreadable) result
  | fault {f : Fault} (hend : f = .unfinished → fails = false) : Agrees fails (.error f) (.error f)
  | ok (a : α) {i : Input} {bytes : List UInt8} (hi : i.Delivers bytes fails) :
    Agrees fails (.ok (a, i)) (.ok (a, ⟨bytes, []⟩))

/-- It makes no difference to the decoder how the bytes are delivered. -/
def Steady (d : Decoder α) : Prop :=
  ∀ i bytes fails, Input.Delivers i bytes fails → Agrees fails (d i) (d ⟨bytes, []⟩)

end Decoder

/-! ## Inputs -/

namespace Input

theorem delivers_ofSource (source : Source) :
    (ofSource source).Delivers source.contents.1 source.contents.2.isSome := ⟨rfl, rfl⟩

namespace Delivers

variable {i : Input} {bytes : List UInt8} {fails : Bool}

theorem size (h : i.Delivers bytes fails) : i.size = bytes.length := by
  rw [Input.size, Source.size_eq, ← List.length_append, h.bytes_eq]

theorem push (h : i.Delivers bytes fails) (b : UInt8) : (i.push b).Delivers (b :: bytes) fails where
  bytes_eq := by rw [← h.bytes_eq]; rfl
  fails_eq := h.fails_eq

/-- The next byte is at hand, or it is taken from the source in front of its end or its failure. -/
theorem next (h : i.Delivers bytes fails) : i.Next bytes fails := by
  obtain ⟨hand, source⟩ := i
  obtain ⟨rfl, rfl⟩ := h
  cases hand with
  | cons b hand => exact .byte (j := ⟨hand, source⟩) rfl ⟨rfl, rfl⟩
  | nil =>
    show Next _ source.contents.1 source.contents.2.isSome
    rw [source.contents_eq]
    cases hnext : source.next? with
    | error message => exact .failed (by simp only [Decoder.peek?, hnext])
    | ok next =>
      cases next with
      | none => exact .ended (by simp only [Decoder.peek?, ofSource, hnext])
      | some next =>
        obtain ⟨b, behind⟩ := next
        have hpeek : Decoder.peek? ⟨[], source⟩ = .ok (some b, (ofSource behind).push b) := by
          simp only [Decoder.peek?, hnext]
          rfl
        exact .byte hpeek ⟨rfl, rfl⟩

end Delivers

end Input

namespace Decoder

variable {α β σ : Type} {i : Input} {bytes : List UInt8} {fails : Bool}

/-! ## Ways to build decoders -/

theorem Steady.agrees {d : Decoder α} (hd : d.Steady) (hi : i.Delivers bytes fails) :
    Agrees fails (d i) (d ⟨bytes, []⟩) := hd i bytes fails hi

theorem steady_pure (a : α) : (pure a : Decoder α).Steady := by
  intro i bytes fails hi
  exact .ok a hi

theorem steady_throw {f : Fault} (hf : f ≠ .unfinished) : (throw f : Decoder α).Steady := by
  intro i bytes fails hi
  exact .fault fun hend => absurd hend hf

theorem Steady.bind {d : Decoder α} {f : α → Decoder β} (hd : d.Steady) (hf : ∀ a, (f a).Steady) :
    (d >>= f).Steady := by
  intro i bytes fails hi
  show Agrees fails ((d i).bind fun p => f p.1 p.2) ((d ⟨bytes, []⟩).bind fun p => f p.1 p.2)
  have hresult := hd.agrees hi
  generalize d i = result at hresult
  generalize d ⟨bytes, []⟩ = expected at hresult
  cases hresult with
  | unreadable hfails => exact .unreadable hfails _
  | fault hend => exact .fault hend
  | ok a hj => exact (hf a).agrees hj

theorem Steady.map {d : Decoder α} (hd : d.Steady) (f : α → β) :
    (d >>= fun a => pure (f a)).Steady := hd.bind fun a => steady_pure (f a)

theorem Steady.ite {p : Prop} [Decidable p] {d e : Decoder α} (hd : d.Steady) (he : e.Steady) :
    (if p then d else e).Steady := by
  split
  · exact hd
  · exact he

/-- A step that is taken under a condition only. -/
theorem Steady.before {p : Prop} [Decidable p] {d : Decoder Unit} {e : Unit → Decoder α}
    (hd : d.Steady) (he : ∀ u, (e u).Steady) : (if p then d >>= e else e ()).Steady :=
  (hd.bind he).ite (he ())

/-- Both inputs lose the same bytes, so both loops go on as long. -/
theorem Steady.loop {step : σ → Decoder (σ ⊕ α)} (hstep : ∀ s, (step s).Steady) (s : σ) :
    Steady (loop step s) := by
  intro i bytes fails hi
  induction hlength : bytes.length using Nat.strongRecOn generalizing i bytes s with
  | ind n ih =>
    have hresult := (hstep s).agrees hi
    rw [Decoder.loop, Decoder.loop]
    generalize step s i = result at hresult
    generalize step s ⟨bytes, []⟩ = expected at hresult
    cases hresult with
    | unreadable hfails => exact .unreadable hfails _
    | fault hend => exact .fault hend
    | @ok next j rest hj =>
      cases next with
      | inr a => exact .ok a hj
      | inl s' =>
        have htext : (Input.mk rest []).size < (Input.mk bytes []).size ↔ rest.length < bytes.length :=
          Iff.rfl
        simp only [hi.size, hj.size, htext]
        by_cases hlt : rest.length < bytes.length
        · rw [if_pos hlt, if_pos hlt]
          exact ih rest.length (by omega) s' j rest hj rfl
        · rw [if_neg hlt, if_neg hlt]
          exact .fault fun hend => absurd hend (by decide)

/-! ## Bytes -/

theorem peek?_steady : peek?.Steady := by
  intro i bytes fails hi
  cases hi.next with
  | byte hpeek hj =>
    rw [hpeek]
    exact .ok _ (hj.push _)
  | ended hpeek =>
    rw [hpeek]
    exact .ok none hi
  | failed hpeek =>
    rw [hpeek]
    exact .unreadable rfl _

theorem drop_steady : drop.Steady := by
  intro i bytes fails hi
  cases hi.next with
  | byte hpeek hj =>
    rw [drop, bind_of_ok hpeek]
    exact .ok () hj
  | ended hpeek =>
    rw [drop, bind_of_ok hpeek]
    exact .ok () hi
  | failed hpeek =>
    rw [drop, bind_of_error hpeek]
    exact .unreadable rfl _

/-- Where a text ends there may be more to follow, but a failure is no end. -/
theorem peek_steady : peek.Steady := by
  intro i bytes fails hi
  cases hi.next with
  | byte hpeek hj =>
    rw [peek, bind_of_ok hpeek]
    exact .ok _ (hj.push _)
  | ended hpeek =>
    rw [peek, bind_of_ok hpeek]
    exact .fault fun _ => rfl
  | failed hpeek =>
    rw [peek, bind_of_error hpeek]
    exact .unreadable rfl _

theorem takeWhile_steady (p : UInt8 → Bool) : (takeWhile p).Steady := by
  refine Steady.loop (fun before => ?_) []
  apply peek?_steady.bind
  intro b?
  cases b?.filter p with
  | some b => exact drop_steady.map _
  | none => exact steady_pure _

theorem next_steady : next.Steady :=
  peek_steady.bind fun _ => drop_steady.map _

theorem token?_steady : token?.Steady := (takeWhile_steady isSpace).bind fun _ => peek?_steady

theorem token_steady : token.Steady := (takeWhile_steady isSpace).bind fun _ => peek_steady

theorem check_steady (c : Bool) : (check c).Steady :=
  (steady_pure ()).ite (steady_throw (by decide))

theorem expect_steady (b : UInt8) : (expect b).Steady :=
  token_steady.bind fun _ => (check_steady _).bind fun _ => drop_steady

theorem word_steady (bytes : List UInt8) : (word bytes).Steady := by
  induction bytes with
  | nil => exact steady_pure ()
  | cons b bytes ih => exact next_steady.bind fun _ => (check_steady _).bind fun _ => ih

/-! ## Whole texts -/

/-- A source that fails does not end. -/
theorem token?_ne_none (hi : i.Delivers bytes true) (j : Input) : token? i ≠ .ok (none, j) := by
  intro hnone
  have hspace := (takeWhile_steady isSpace).agrees hi
  unfold token? at hnone
  cases hresult : takeWhile isSpace i with
  | error f =>
    rw [bind_of_error hresult] at hnone
    cases hnone
  | ok result =>
    obtain ⟨space, k⟩ := result
    rw [bind_of_ok hresult] at hnone
    rw [hresult] at hspace
    generalize takeWhile isSpace ⟨bytes, []⟩ = expected at hspace
    cases hspace with
    | ok _ hk =>
      cases hk.next with
      | byte hpeek _ =>
        rw [hpeek] at hnone
        cases hnone
      | failed hpeek =>
        rw [hpeek] at hnone
        cases hnone

/-- **A whole text** is decoded from a source as it stands, or the source fails and the failure is met. A
source that fails gives no value, and no fault of a text that ends. -/
theorem Steady.run_cases {d : Decoder α} (hd : d.Steady) (hi : i.Delivers bytes fails) :
    (fails = true ∧ run d i = .error .unreadable) ∨
      (run d i = run d ⟨bytes, []⟩ ∧
        (fails = true → ∃ f, f ≠ .unfinished ∧ run d i = .error f)) := by
  have hfault : ∀ f : Fault, (f = .unfinished → fails = false) → fails = true → f ≠ .unfinished := by
    intro f hend hfails hf
    rw [hend hf] at hfails
    cases hfails
  have hresult := hd.agrees hi
  unfold Decoder.run
  generalize d i = result at hresult
  generalize d ⟨bytes, []⟩ = expected at hresult
  cases hresult with
  | unreadable hfails => exact Or.inl ⟨hfails, rfl⟩
  | @fault f hend => exact Or.inr ⟨rfl, fun hfails => ⟨f, hfault f hend hfails, rfl⟩⟩
  | @ok a j rest hj =>
    -- the value is complete, but what stands behind it is looked at as well
    have hbehind := token?_steady.agrees hj
    have hne : fails = true → ∀ k, token? j ≠ .ok (none, k) := by
      rintro rfl
      exact token?_ne_none hj
    show (fails = true ∧ (token? j).bind _ = _) ∨
      ((token? j).bind _ = (token? ⟨rest, []⟩).bind _ ∧
        (fails = true → ∃ f, f ≠ .unfinished ∧ (token? j).bind _ = .error f))
    generalize token? j = result at hbehind hne
    generalize token? ⟨rest, []⟩ = expected at hbehind
    cases hbehind with
    | unreadable hfails => exact Or.inl ⟨hfails, rfl⟩
    | @fault f hend => exact Or.inr ⟨rfl, fun hfails => ⟨f, hfault f hend hfails, rfl⟩⟩
    | ok b? =>
      refine Or.inr ⟨rfl, fun hfails => ?_⟩
      cases b? with
      | none => exact absurd rfl (hne hfails _)
      | some b => exact ⟨.malformed, by decide, rfl⟩

end Decoder

end Json

end Tagline
