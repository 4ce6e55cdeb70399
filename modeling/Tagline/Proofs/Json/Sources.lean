import Tagline.Proofs.Json.Steady

/-!
# Configurations from sources

All that a configuration is read with is steady, since it is built from steps that are (Steady.bind,
Steady.loop). So it is read from a source as from the text of its bytes, whatever the ends of the chunks
and the interruptions in between. A source that fails gives no configuration, and never looks like a text
that ends too early.
-/

namespace Tagline.Json.Decoder

variable {α σ : Type}

/-! ## Numbers -/

theorem integerDigits_steady : integerDigits.Steady := by
  apply next_steady.bind
  intro first
  apply (check_steady _).bind
  intro _
  apply Steady.ite
  · exact peek?_steady.bind fun _ => (check_steady _).map _
  · exact (takeWhile_steady isDigit).map _

theorem fractionDigits_steady : fractionDigits.Steady := by
  apply (takeWhile_steady isDigit).bind
  intro digits
  apply Steady.ite
  · exact peek_steady.bind fun _ => steady_throw (by decide)
  · exact steady_pure digits

theorem exponentSign_steady : exponentSign.Steady := by
  apply peek?_steady.bind
  intro sign
  exact drop_steady.before fun _ => steady_pure _

theorem exponentStep_steady (limited : Bool) (e : Nat) : (exponentStep limited e).Steady := by
  apply peek?_steady.bind
  intro d?
  cases d?.filter isDigit with
  | some d => exact drop_steady.bind fun _ => (check_steady _).map _
  | none => exact steady_pure _

theorem exponent_steady (m : Magnitude) : (exponent m).Steady := by
  apply exponentSign_steady.bind
  intro negative
  apply next_steady.bind
  intro first
  apply (check_steady _).bind
  intro _
  exact (Steady.loop (exponentStep_steady _) _).map _

theorem atPoint_steady : atPoint.Steady := peek?_steady.map _

theorem atExponent_steady : atExponent.Steady := peek?_steady.map _

theorem approximate_steady (m : Magnitude) : (unsigned.approximate m).Steady :=
  (check_steady _).map _

theorem unsigned_steady (negative : Bool) : (unsigned negative).Steady := by
  have hexponent : ∀ m, (drop >>= fun _ => exponent m >>= unsigned.approximate).Steady := by
    intro m
    exact drop_steady.bind fun _ => (exponent_steady m).bind approximate_steady
  apply integerDigits_steady.bind
  intro digits
  apply atPoint_steady.bind
  intro point
  apply Steady.ite
  · apply drop_steady.bind
    intro _
    apply fractionDigits_steady.bind
    intro fraction
    apply atExponent_steady.bind
    intro letter
    exact (hexponent _).ite (approximate_steady _)
  · apply atExponent_steady.bind
    intro letter
    exact (hexponent _).ite ((approximate_steady _).ite (steady_pure _))

theorem number_steady : number.Steady := by
  apply peek?_steady.bind
  intro sign
  exact (drop_steady.bind fun _ => unsigned_steady true).ite (unsigned_steady false)

theorem skipDigits_steady : skipDigits.Steady :=
  (takeWhile_steady isDigit).bind fun _ => check_steady _

theorem skipInteger_steady : skipInteger.Steady := by
  apply peek?_steady.bind
  intro first
  apply Steady.ite
  · exact drop_steady.bind fun _ => peek?_steady.bind fun _ => check_steady _
  · exact skipDigits_steady

theorem skipNumber_steady : skipNumber.Steady := by
  have hexponent : (atExponent >>= fun letter =>
      if letter then drop >>= fun _ => skipExponent else pure ()).Steady := by
    apply atExponent_steady.bind
    intro letter
    apply Steady.ite
    · exact drop_steady.bind fun _ => exponentSign_steady.bind fun _ => skipDigits_steady
    · exact steady_pure ()
  apply skipInteger_steady.bind
  intro _
  apply atPoint_steady.bind
  intro point
  apply Steady.ite
  · exact drop_steady.bind fun _ => skipDigits_steady.bind fun _ => hexponent
  · exact hexponent

/-! ## Strings -/

theorem hexUnit_steady : hexUnit.Steady := by
  iterate 4
    apply next_steady.bind
    intro digit
  dsimp only
  split
  · exact steady_pure _
  · exact steady_throw (by decide)

theorem unicodeEscape_steady : unicodeEscape.Steady := by
  apply hexUnit_steady.bind
  intro first
  apply (check_steady _).bind
  intro _
  apply Steady.ite
  · apply next_steady.bind
    intro backslash
    apply (check_steady _).bind
    intro _
    apply next_steady.bind
    intro letter
    apply (check_steady _).bind
    intro _
    apply hexUnit_steady.bind
    intro second
    exact (check_steady _).map _
  · exact steady_pure _

theorem escape_steady : escape.Steady := by
  apply next_steady.bind
  intro b
  apply unicodeEscape_steady.ite
  split
  · exact steady_pure _
  · exact steady_throw (by decide)

theorem stringPiece_steady (before : List UInt8) : (stringPiece before).Steady := by
  apply next_steady.bind
  intro b
  apply (steady_pure _).ite
  apply Steady.ite
  · exact escape_steady.map _
  · exact (check_steady _).map _

theorem stringTail_steady : stringTail.Steady := by
  apply (Steady.loop stringPiece_steady []).bind
  intro bytes
  split
  · exact steady_pure _
  · exact steady_throw (by decide)

theorem skipPiece_steady (u : Unit) : (skipPiece u).Steady := by
  apply next_steady.bind
  intro b
  apply (steady_pure _).ite
  apply Steady.ite
  · apply next_steady.bind
    intro e
    apply Steady.ite
    · exact hexUnit_steady.map _
    · exact (check_steady _).map _
  · exact (check_steady _).map _

theorem skipString_steady : skipString.Steady := Steady.loop skipPiece_steady ()

/-! ## Values that are skipped -/

theorem colon_steady : colon.Steady := expect_steady _

theorem skipKey_steady : skipKey.Steady :=
  (expect_steady _).bind fun _ => skipString_steady.bind fun _ => colon_steady

theorem literal_steady (b : UInt8) : (literal b).Steady :=
  (word_steady _).ite ((word_steady _).ite ((word_steady _).ite (steady_throw (by decide))))

theorem skipStart_steady (around : List Bracket) : (skipStart around).Steady := by
  apply token_steady.bind
  intro b
  apply Steady.ite
  · apply drop_steady.bind
    intro _
    apply token_steady.bind
    intro c
    exact (drop_steady.map _).ite (steady_pure _)
  apply Steady.ite
  · apply drop_steady.bind
    intro _
    apply token_steady.bind
    intro c
    exact (drop_steady.map _).ite (skipKey_steady.map _)
  · -- a scalar
    apply Steady.ite
    · exact drop_steady.bind fun _ => skipString_steady.map _
    apply Steady.ite
    · exact drop_steady.bind fun _ => skipNumber_steady.map _
    apply Steady.ite
    · exact skipNumber_steady.map _
    · exact (literal_steady b).map _

theorem skipBehind_steady (innermost : Bracket) (around : List Bracket) :
    (skipBehind innermost around).Steady := by
  apply token_steady.bind
  intro b
  apply Steady.ite
  · apply drop_steady.bind
    intro _
    cases innermost with
    | array => exact steady_pure _
    | object => exact skipKey_steady.map _
  · exact (check_steady _).bind fun _ => drop_steady.map _

theorem skipStep_steady (s : SkipState) : (skipStep s).Steady := by
  match s with
  | .value around => exact (skipStart_steady around).map _
  | .behind [] => exact steady_pure _
  | .behind (innermost :: around) =>
    exact (skipBehind_steady innermost around).map _

theorem skipValue_steady : skipValue.Steady := Steady.loop skipStep_steady (.value [])

/-! ## Records and lists -/

theorem mismatch_steady : (mismatch : Decoder α).Steady := by
  have hmismatched : (throw .mismatched : Decoder α).Steady := steady_throw (by decide)
  apply token_steady.bind
  intro b
  apply hmismatched.ite
  apply Steady.ite
  · exact drop_steady.bind fun _ => stringTail_steady.bind fun _ => hmismatched
  apply Steady.ite
  · exact number_steady.bind fun _ => hmismatched
  · exact (literal_steady b).bind fun _ => hmismatched

theorem string_steady : string.Steady := by
  apply token_steady.bind
  intro b
  apply Steady.ite
  · exact drop_steady.bind fun _ => stringTail_steady
  · exact mismatch_steady

theorem null_steady : null.Steady := by
  apply token_steady.bind
  intro b
  exact (literal_steady b).ite mismatch_steady

section
variable {d : Decoder α} (hd : d.Steady)

include hd

theorem element?_steady (first : Bool) : (element? first d).Steady := by
  have hread : (some <$> d).Steady := hd.map some
  apply token_steady.bind
  intro b
  apply (steady_pure none).ite
  apply Steady.ite
  · exact hread
  apply Steady.ite
  · exact drop_steady.bind fun _ => token_steady.bind fun _ => (check_steady _).bind fun _ => hread
  · exact steady_throw (by decide)

theorem list_steady : (list d).Steady := by
  have hstep : ∀ before, (listStep d before).Steady := by
    intro before
    apply (element?_steady hd before.isEmpty).bind
    intro a?
    cases a? with
    | none => exact steady_pure _
    | some a => exact steady_pure _
  apply token_steady.bind
  intro b
  apply Steady.ite
  · apply drop_steady.bind
    intro _
    apply (Steady.loop hstep []).bind
    intro elements
    exact (expect_steady _).map _
  · exact mismatch_steady

end

section
variable {member : Text → σ → Member σ}
  (hmember : ∀ key s (d : Decoder σ), member key s = .field d → d.Steady)

include hmember

theorem memberStep_steady (state : Bool × σ) : (memberStep member state).Steady := by
  apply token_steady.bind
  intro b
  apply (steady_pure _).ite
  apply Steady.before (expect_steady _)
  intro _
  apply (expect_steady _).bind
  intro _
  apply stringTail_steady.bind
  intro key
  cases hkey : member key state.2 with
  | unknown => exact colon_steady.bind fun _ => skipValue_steady.map _
  | repeated => exact steady_throw (by decide)
  | field value =>
    exact colon_steady.bind fun _ => (hmember key state.2 value hkey).map _

theorem record_steady {start : σ} {complete? : σ → Option α} {fields : Decoder α}
    (hfields : fields.Steady) : (record member start complete? fields).Steady := by
  apply token_steady.bind
  intro b
  apply Steady.ite
  · apply drop_steady.bind
    intro _
    apply (Steady.loop (memberStep_steady hmember) (true, start)).bind
    intro state
    split
    · exact (expect_steady _).map _
    · exact steady_throw (by decide)
  apply Steady.ite
  · apply drop_steady.bind
    intro _
    apply hfields.bind
    intro a
    exact (expect_steady _).map _
  · exact mismatch_steady

end

/-! ## Configurations -/

theorem kindOfKey_steady (key : Text) : (kindOfKey key).Steady := by
  unfold kindOfKey
  split
  · exact steady_pure _
  · exact steady_throw (by decide)

theorem kind_steady : kind.Steady := by
  apply token_steady.bind
  intro b
  apply Steady.ite
  · exact string_steady.bind kindOfKey_steady
  apply Steady.ite
  · apply drop_steady.bind
    intro _
    apply (expect_steady _).bind
    intro _
    apply stringTail_steady.bind
    intro key
    apply (kindOfKey_steady key).bind
    intro k
    apply colon_steady.bind
    intro _
    apply null_steady.bind
    intro _
    exact (expect_steady _).map _
  · exact steady_throw (by decide)

theorem config_steady : config.Steady := by
  have hkinds : (list kind).Steady := list_steady kind_steady
  apply record_steady
  · intro key disabled? d hd
    split at hd
    · cases disabled? with
      | some disabled => cases hd
      | none =>
        cases hd
        exact hkinds.map some
    · cases hd
  · exact (element?_steady hkinds true).map _

end Tagline.Json.Decoder

namespace Tagline

open Json Json.Decoder

/-! ## Top theorem -/

/-- **Reading a configuration from a source** gives what reading it from the text gives, however the
bytes of the text are delivered. If the source fails, there is no configuration, and the text is never
taken for one that ends too early; behind the text of a configuration, the failure itself is the
error. -/
theorem Config.ofJsonSource_agrees (source : Source) :
    (∀ t, source.contents = (Utf8.encode t, none) → ofJsonSource source = ofJson t) ∧
      ∀ message, source.contents.2 = some message →
        (∀ config, ofJsonSource source ≠ .ok config) ∧
        ofJsonSource source ≠ .error (.invalidConfig .unfinished) ∧
        ∀ t config, source.contents.1 = Utf8.encode t → ofJson t = .ok config →
          ofJsonSource source = .error (.invalidConfig .unreadable) := by
  have hinput := Input.delivers_ofSource source
  constructor
  · intro t ht
    rw [ht] at hinput
    rcases config_steady.run_cases hinput with ⟨hfails, -⟩ | ⟨hrun, -⟩
    · cases hfails
    · rw [ofJsonSource, hrun]
      rfl
  · intro message hmessage
    rw [hmessage] at hinput
    obtain ⟨f, hf, hrun, htext⟩ : ∃ f, f ≠ .unfinished ∧ run config (.ofSource source) = .error f ∧
        (f = .unreadable ∨ run config ⟨source.contents.1, []⟩ = .error f) := by
      rcases config_steady.run_cases hinput with ⟨-, hrun⟩ | ⟨htext, hfault⟩
      · exact ⟨.unreadable, by decide, hrun, Or.inl rfl⟩
      · obtain ⟨f, hf, hrun⟩ := hfault rfl
        exact ⟨f, hf, hrun, Or.inr (htext.symm.trans hrun)⟩
    have herror : ofJsonSource source = .error (.invalidConfig f) := by
      rw [ofJsonSource, hrun]
      rfl
    rw [herror]
    refine ⟨?_, ?_, ?_⟩
    · intro config h
      cases h
    · intro h
      cases h
      exact hf rfl
    · intro t config ht hconfig
      rcases htext with rfl | htext
      · rfl
      · rw [ht] at htext
        rw [ofJson, decode, Input.ofText, htext] at hconfig
        cases hconfig

/-- A source that is interrupted inside a character, and one that fails behind the same text. -/
theorem Config.ofJsonSource_agrees_interrupted :
    let t : Text := "\x7b\"é\":1,\"disabled_kinds\":[\"macro\"]\x7d".toList
    let bytes := Utf8.encode t
    let source : Source := [.data (bytes.take 3), .interruption, .data (bytes.drop 3)]
    let failing : Source := source ++ [.failure "lost".toList]
    source.contents = (bytes, none) ∧ ofJsonSource source = .ok ⟨[.macroDef]⟩ ∧
      failing.contents = (bytes, some "lost".toList) ∧
      ofJsonSource failing = .error (.invalidConfig .unreadable) := by
  intro t bytes source failing
  have hcontents : source.contents = (bytes, none) := by decide +kernel
  have hfailing : failing.contents = (bytes, some "lost".toList) := by decide +kernel
  have hconfig : ofJson t = .ok ⟨[.macroDef]⟩ := by decide +kernel
  have hbytes : failing.contents.1 = Utf8.encode t := by rw [hfailing]
  have hmessage : failing.contents.2 = some "lost".toList := by rw [hfailing]
  refine ⟨hcontents, ?_, hfailing, ?_⟩
  · rw [(ofJsonSource_agrees source).1 t hcontents, hconfig]
  · exact ((ofJsonSource_agrees failing).2 _ hmessage).2.2 t ⟨[.macroDef]⟩ hbytes hconfig

end Tagline
