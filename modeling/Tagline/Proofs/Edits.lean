import Mathlib.Data.List.Induction
import Tagline.Proofs.Reporting
import Tagline.Scanner.Source

/-!
# Building a configuration

The disabled kinds are a list that stands for a set. Of all steps that build a configuration, the last
one that has something to say about a kind decides whether it is reported

    (build edits).isEnabled k = (lastWord? edits k).getD true       (isEnabled_build)

Disabling a kind lists it once at most and enabling it removes it wherever it is listed, so a kind is
listed twice only if a configuration that is given lists it twice (nodup_build). A scan looks at the
list only to ask whether a kind is in it (results_eq_of_isEnabled).
-/

namespace Tagline

namespace Config

/-! ## Definitions -/

/-- Whether a kind is reported behind the step, if the step concerns the kind. -/
def Edit.verdict? (k : Kind) : Edit → Option Bool
  | .disable j => if j = k then some false else none
  | .disableAll js => if k ∈ js then some false else none
  | .enable j => if j = k then some true else none
  | .replace config => some (decide (k ∉ config.disabled))

/-- What the last of the steps that concern a kind says about it. -/
def lastWord? (edits : List Edit) (k : Kind) : Option Bool :=
  (edits.filterMap (Edit.verdict? k)).getLast?

/-! ## One step -/

section
variable (config : Config)

theorem mem_disabled_foldl_disable (ks : List Kind) (j : Kind) :
    j ∈ (ks.foldl disable config).disabled ↔ j ∈ config.disabled ∨ j ∈ ks := by
  induction ks generalizing config with
  | nil => simp
  | cons k ks ih =>
    rw [List.foldl_cons, ih, mem_disabled_disable, List.mem_cons, or_assoc]

/-- A step decides about the kinds that it concerns, and about no others. -/
theorem isEnabled_edit (e : Edit) (k : Kind) :
    (config.edit e).isEnabled k = (e.verdict? k).getD (config.isEnabled k) := by
  rw [Bool.eq_iff_iff, isEnabled_iff]
  cases e with
  | disable j =>
    show k ∉ (config.disable j).disabled ↔ _
    rw [mem_disabled_disable, not_or, ← isEnabled_iff]
    by_cases hj : j = k
    · simp [Edit.verdict?, hj]
    · simp [Edit.verdict?, hj, Ne.symm hj]
  | disableAll js =>
    show k ∉ (js.foldl disable config).disabled ↔ _
    rw [mem_disabled_foldl_disable, not_or, ← isEnabled_iff]
    by_cases hk : k ∈ js
    · simp [Edit.verdict?, hk]
    · simp [Edit.verdict?, hk]
  | enable j =>
    show k ∉ (config.enable j).disabled ↔ _
    rw [mem_disabled_enable]
    by_cases hj : j = k
    · simp [Edit.verdict?, hj]
    · simp [Edit.verdict?, hj, Ne.symm hj, isEnabled_iff]
  | replace new =>
    show k ∉ new.disabled ↔ _
    simp [Edit.verdict?]

theorem nodup_disable (h : config.disabled.Nodup) (k : Kind) : (config.disable k).disabled.Nodup := by
  unfold disable
  split
  · next henabled =>
    have hk : k ∉ config.disabled := (isEnabled_iff config k).1 henabled
    rw [List.nodup_append]
    refine ⟨h, List.pairwise_singleton _ k, ?_⟩
    intro j hj l hl
    rw [List.mem_singleton.1 hl]
    rintro rfl
    exact hk hj
  · exact h

theorem nodup_foldl_disable (h : config.disabled.Nodup) (ks : List Kind) :
    (ks.foldl disable config).disabled.Nodup := by
  induction ks generalizing config with
  | nil => exact h
  | cons k ks ih => exact ih (config.disable k) (nodup_disable config h k)

/-- A step lists no kind twice, unless it gives a configuration that does. -/
theorem nodup_edit (h : config.disabled.Nodup) (e : Edit)
    (hnew : ∀ new, e = .replace new → new.disabled.Nodup) : (config.edit e).disabled.Nodup := by
  cases e with
  | disable k => exact nodup_disable config h k
  | disableAll ks => exact nodup_foldl_disable config h ks
  | enable k => exact h.filter _
  | replace new => exact hnew new rfl

end

/-! ## All steps -/

theorem build_append_singleton (edits : List Edit) (e : Edit) :
    build (edits ++ [e]) = (build edits).edit e := by
  unfold build
  rw [List.foldl_append]
  rfl

theorem lastWord?_append_singleton (edits : List Edit) (e : Edit) (k : Kind) :
    lastWord? (edits ++ [e]) k = (e.verdict? k).or (lastWord? edits k) := by
  unfold lastWord?
  rw [List.filterMap_append, List.getLast?_append]
  cases hverdict : e.verdict? k with
  | none => simp [hverdict]
  | some reported => simp [hverdict]

/-- **The last word on a kind** decides whether it is reported. -/
theorem isEnabled_build (edits : List Edit) (k : Kind) :
    (build edits).isEnabled k = (lastWord? edits k).getD true := by
  induction edits using List.reverseRecOn with
  | nil => rfl
  | append_singleton edits e ih =>
    rw [build_append_singleton, isEnabled_edit, lastWord?_append_singleton, ih]
    cases e.verdict? k with
    | none => rfl
    | some reported => rfl

/-- **No kind is listed twice** if no configuration that is given lists a kind twice. -/
theorem nodup_build {edits : List Edit}
    (h : ∀ config, .replace config ∈ edits → config.disabled.Nodup) :
    (build edits).disabled.Nodup := by
  induction edits using List.reverseRecOn with
  | nil => exact List.nodup_nil
  | append_singleton edits e ih =>
    rw [build_append_singleton]
    apply nodup_edit
    · apply ih
      intro config hmem
      exact h config (List.mem_append_left _ hmem)
    · rintro new rfl
      exact h new (List.mem_append_right _ List.mem_cons_self)

end Config

/-! ## Scans -/

namespace Scanner

section
variable {c d : Config} (h : ∀ k, c.isEnabled k = d.isEnabled k) (lexicon : Lexicon)

include h

theorem tag?_eq_of_isEnabled (number : Nat) (line : Text) (scopes : ScopeStack) (heading : Heading) :
    tag? ⟨c, lexicon⟩ number line scopes heading = tag? ⟨d, lexicon⟩ number line scopes heading := by
  cases heading with
  | unnamed kind => rfl
  | named kind name offset => simp only [tag?, h kind]

theorem headingEvent_eq_of_isEnabled (number : Nat) (line : Text) (heading : Heading) :
    headingEvent ⟨c, lexicon⟩ number line heading = headingEvent ⟨d, lexicon⟩ number line heading := by
  cases heading with
  | unnamed kind => rfl
  | named kind name offset => simp only [headingEvent, h kind]

/-- A line does the same under configurations that enable the same kinds. -/
theorem scanLine_eq_of_isEnabled (state : ScanState) (line : Text) :
    scanLine ⟨c, lexicon⟩ state line = scanLine ⟨d, lexicon⟩ state line := by
  have hcode : ∀ number scopes,
      scanCode ⟨c, lexicon⟩ number scopes line = scanCode ⟨d, lexicon⟩ number scopes line := by
    intro number scopes
    simp only [scanCode, funext (tag?_eq_of_isEnabled h lexicon number line _),
      funext (headingEvent_eq_of_isEnabled h lexicon number line)]
  unfold scanLine
  cases lexicon.marker? line with
  | some marker => cases marker <;> rfl
  | none =>
    cases state.mode with
    | comment => rfl
    | code => exact hcode (state.line + 1) state.scopes

/-- **Runs** under configurations that enable the same kinds are the same. -/
theorem results_eq_of_isEnabled (state : ScanState) (lines : List Text) :
    results ⟨c, lexicon⟩ state lines = results ⟨d, lexicon⟩ state lines := by
  induction lines generalizing state with
  | nil => rfl
  | cons line lines ih => simp only [results, scanLine_eq_of_isEnabled h lexicon state line, ih]

theorem scanSource_eq_of_isEnabled (capacity : Nat) (source : Source) :
    scanSource ⟨c, lexicon⟩ capacity source = scanSource ⟨d, lexicon⟩ capacity source := by
  unfold scanSource scanDelivery scanLines tagsFrom eventsFrom
  simp only [results_eq_of_isEnabled h lexicon]

end

end Scanner

/-! ## Top theorem -/

namespace Config

open Scanner (results scanLines scanSource)

/-- **The last word wins.** A configuration that is built reports a kind if the last of the steps that
concern the kind says so, and if no step concerns it; the tags of a scan are then those of the kinds
that are reported. If no configuration that is given lists a kind twice, then behind every step no kind
is listed twice. Steps that leave the same set of disabled kinds make scanners that do the same with
all lines and all sources. -/
theorem last_word_wins (edits others : List Edit) :
    (∀ k, (build edits).isEnabled k = (lastWord? edits k).getD true) ∧
      (∀ lines, scanLines { config := build edits } lines =
        (scanLines {} lines).filter fun t => (lastWord? edits t.kind).getD true) ∧
      ((∀ config, .replace config ∈ edits → config.disabled.Nodup) →
        ∀ before, before <+: edits → (build before).disabled.Nodup) ∧
      ((∀ k, k ∈ (build edits).disabled ↔ k ∈ (build others).disabled) →
        (∀ state lines, results { config := build edits } state lines =
          results { config := build others } state lines) ∧
        ∀ capacity source, scanSource { config := build edits } capacity source =
          scanSource { config := build others } capacity source) := by
  refine ⟨isEnabled_build edits, ?_, ?_, ?_⟩
  · intro lines
    simp only [← isEnabled_build]
    exact Scanner.tagsFrom_eq_filter (build edits) .julia {} lines
  · intro h before hbefore
    apply nodup_build
    intro config hmem
    exact h config (hbefore.subset hmem)
  · intro hsame
    have henabled : ∀ k, (build edits).isEnabled k = (build others).isEnabled k := by
      intro k
      rw [Bool.eq_iff_iff, isEnabled_iff, isEnabled_iff, hsame k]
    constructor
    · exact Scanner.results_eq_of_isEnabled henabled .julia
    · exact Scanner.scanSource_eq_of_isEnabled henabled .julia

/-- The same two kinds stay disabled in the end, on another way and in another order. -/
theorem last_word_wins_reordered :
    let edits : List Edit := [.disableAll [.macroDef, .describe, .macroDef], .enable .macroDef,
      .disable .typeDef]
    let others : List Edit := [.disable .context, .replace ⟨[.typeDef, .immutable, .describe]⟩,
      .enable .immutable]
    let lines := ["module M", "type T", "end", "macro m(x)"].map String.toList
    (build edits).disabled = [.describe, .typeDef] ∧
      (build others).disabled = [.typeDef, .describe] ∧
      (∀ config, .replace config ∈ others → config.disabled.Nodup) ∧
      (build (others.take 2)).disabled.Nodup ∧
      (∀ k, k ∈ (build edits).disabled ↔ k ∈ (build others).disabled) ∧
      scanLines { config := build edits } lines = scanLines { config := build others } lines ∧
      (scanLines { config := build edits } lines).map (·.kind) = [.moduleDef, .macroDef] := by
  intro edits others lines
  have hgiven : ∀ config, .replace config ∈ others → config.disabled.Nodup := by
    intro config hmem
    simp only [others, List.mem_cons, List.not_mem_nil, or_false, reduceCtorEq, Edit.replace.injEq,
      false_or] at hmem
    rw [hmem]
    decide
  have hsame : ∀ k, k ∈ (build edits).disabled ↔ k ∈ (build others).disabled := by
    intro k
    cases k <;> decide
  obtain ⟨-, hfilter, -, hscan⟩ := last_word_wins edits others
  obtain ⟨-, -, hnodup, -⟩ := last_word_wins others edits
  refine ⟨rfl, rfl, hgiven, hnodup hgiven _ (List.take_prefix 2 others), hsame, ?_, ?_⟩
  · unfold Scanner.scanLines Scanner.tagsFrom
    rw [(hscan hsame).1]
  · rw [hfilter]
    decide +kernel

end Config

end Tagline
