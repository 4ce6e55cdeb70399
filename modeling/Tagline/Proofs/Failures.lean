import Mathlib.Data.List.DropRight
import Tagline.Proofs.SourceScan

/-!
# Sources that fail

A failure loses the line that is not finished, and nothing else. What a source delivers before it fails
are the lines of the complete part of its bytes, which ends with the last newline:

    contents source = (bytes, some message) →
      deliver capacity source = ⟨cutAfter (· == newline) (completePart bytes), some message⟩
                                                                   (deliver_of_failure)

However the bytes go on, the lines of the complete part stay the first lines (cutAfter_append), so the
tags that were found before the failure are the first tags of every longer source
(scanSource_of_failure).
-/

namespace Tagline

namespace Delivery

/-! ## Definitions -/

/-- The bytes up to the last newline, and with it. -/
def completePart (bytes : List UInt8) : List UInt8 := bytes.rdropWhile (· != newline)

/-- The bytes behind the last newline. -/
def unfinishedPart (bytes : List UInt8) : List UInt8 := bytes.rtakeWhile (· != newline)

/-- The bytes leave no line unfinished. -/
def IsComplete (bytes : List UInt8) : Prop := bytes = [] ∨ ∃ front, bytes = front ++ [newline]

/-! ## Parts of some bytes -/

theorem completePart_append_unfinishedPart (bytes : List UInt8) :
    completePart bytes ++ unfinishedPart bytes = bytes :=
  List.rdropWhile_append_rtakeWhile

theorem newline_not_mem_unfinishedPart (bytes : List UInt8) : newline ∉ unfinishedPart bytes := by
  intro hmem
  unfold unfinishedPart at hmem
  have hne := List.mem_rtakeWhile_imp hmem
  simp at hne

theorem isComplete_completePart (bytes : List UInt8) : IsComplete (completePart bytes) := by
  by_cases hnil : completePart bytes = []
  · exact Or.inl hnil
  · have hlast : (completePart bytes).getLast hnil = newline := by
      have hnot : ¬ ((completePart bytes).getLast hnil != newline) = true :=
        List.rdropWhile_last_not (· != newline) bytes hnil
      simpa using hnot
    refine Or.inr ⟨(completePart bytes).dropLast, ?_⟩
    rw [← hlast]
    exact (List.dropLast_append_getLast hnil).symm

/-! ## Lines of the parts -/

/-- Without a newline no line is completed. -/
theorem completeLines_of_not_mem {bytes : List UInt8} (hb : newline ∉ bytes)
    (unfinished : List UInt8) :
    completeLines unfinished bytes = ([], bytes.reverse ++ unfinished) := by
  induction bytes generalizing unfinished with
  | nil => rfl
  | cons b bytes ih =>
    rw [List.mem_cons, not_or] at hb
    rw [completeLines_other (Ne.symm hb.1), ih hb.2, List.reverse_cons, List.append_assoc]
    rfl

theorem completeLines_of_isComplete {bytes : List UInt8} (h : IsComplete bytes) :
    completeLines [] bytes = (Text.cutAfter (· == newline) bytes, []) := by
  rcases h with rfl | ⟨front, rfl⟩
  · rfl
  · have hbehind : (completeLines [] (front ++ [newline])).2 = [] := by
      rw [completeLines_append]
      show (completeLines (completeLines [] front).2 [newline]).2 = []
      rw [completeLines_newline]
      rfl
    have hlines := completeLines_eq_cutAfter List.not_mem_nil (front ++ [newline])
    rw [hbehind] at hlines
    refine Prod.ext ?_ hbehind
    show (completeLines [] (front ++ [newline])).1 = _
    rw [← List.append_nil (completeLines [] (front ++ [newline])).1]
    exact hlines

/-- **The lines that some bytes complete** are those of their complete part. -/
theorem completeLines_eq (bytes : List UInt8) :
    completeLines [] bytes =
      (Text.cutAfter (· == newline) (completePart bytes), (unfinishedPart bytes).reverse) := by
  calc completeLines [] bytes
      = completeLines [] (completePart bytes ++ unfinishedPart bytes) := by
        rw [completePart_append_unfinishedPart]
    _ = _ := by
        simp only [completeLines_append, completeLines_of_isComplete (isComplete_completePart bytes),
          completeLines_of_not_mem (newline_not_mem_unfinishedPart bytes), List.append_nil]

/-- What comes behind complete lines does not change them. -/
theorem IsComplete.cutAfter_append {bytes : List UInt8} (h : IsComplete bytes) (more : List UInt8) :
    Text.cutAfter (· == newline) (bytes ++ more) =
      Text.cutAfter (· == newline) bytes ++ Text.cutAfter (· == newline) more := by
  rcases h with rfl | ⟨front, rfl⟩
  · rfl
  · rw [List.append_assoc, List.singleton_append]
    exact @Text.cutAfter_append _ (· == newline) newline (beq_self_eq_true newline) front more

/-- However some bytes go on, the lines of their complete part are the first lines. -/
theorem cutAfter_completePart_prefix (bytes more : List UInt8) :
    Text.cutAfter (· == newline) (completePart bytes) <+:
      Text.cutAfter (· == newline) (bytes ++ more) := by
  have hsplit : bytes ++ more = completePart bytes ++ (unfinishedPart bytes ++ more) := by
    rw [← List.append_assoc, completePart_append_unfinishedPart]
  rw [hsplit, (isComplete_completePart bytes).cutAfter_append]
  exact List.prefix_append _ _

end Delivery

open Delivery (newline completePart)

/-- **A source that fails** delivers the lines of the complete part of its bytes. -/
theorem Source.deliver_of_failure {capacity : Nat} (hc : 0 < capacity) {source : Source}
    {bytes : List UInt8} {message : Text} (h : source.contents = (bytes, some message)) :
    source.deliver capacity =
      ⟨Text.cutAfter (· == newline) (completePart bytes), some message⟩ := by
  unfold deliver
  rw [Delivery.ofReads_reads hc, h, Delivery.completeLines_eq]
  exact congrArg (Delivery.mk · (some message)) (List.append_nil _)

/-! ## Events -/

namespace Scanner

theorem headingEvent_ne_finished (s : Scanner) (number : Nat) (line : Text) (heading : Heading)
    (n : Nat) : s.headingEvent number line heading ≠ .finished n := by
  cases heading with
  | unnamed kind => simp [headingEvent]
  | named kind name offset =>
    by_cases henabled : s.config.isEnabled kind = true
    · simp [headingEvent, henabled]
    · simp [headingEvent, henabled]

/-- No line says that the scan is finished. -/
theorem finished_not_mem_scanLine (s : Scanner) (state : ScanState) (line : Text) (n : Nat) :
    .finished n ∉ (s.scanLine state line).events := by
  intro he
  rcases cases_of_mem_events he with h | h | ⟨scope, depth, h | h⟩ | ⟨heading, -, -, -, h⟩
  · cases h
  · cases h
  · cases h
  · cases h
  · exact headingEvent_ne_finished s _ line heading n h.symm

theorem finished_not_mem_eventsFrom (s : Scanner) (state : ScanState) (lines : List Text) (n : Nat) :
    .finished n ∉ s.eventsFrom state lines := by
  induction lines generalizing state with
  | nil => exact List.not_mem_nil
  | cons line lines ih =>
    rw [eventsFrom_cons, List.mem_append, not_or]
    exact ⟨finished_not_mem_scanLine s state line n, ih _⟩

/-! ## Tags -/

/-- The tags of the first lines are the first tags. -/
theorem scanLines_prefix (s : Scanner) {ls ms : List Text} (h : ls <+: ms) :
    s.scanLines ls <+: s.scanLines ms := by
  obtain ⟨behind, rfl⟩ := h
  unfold scanLines
  rw [tagsFrom_append]
  exact List.prefix_append _ _

/-- **A failure loses the unfinished line only.** The scan of a source that fails gives the error with
the message of the failure, whatever the chunks, the interruptions and the capacity of the buffer. Its
tags are those of the bytes up to the last newline as a text, and no event tells a number of lines.
They are the first tags of every source whose bytes go on from there without a failure. -/
theorem scanSource_of_failure (config : Config) {capacity : Nat} (hc : 0 < capacity) {source : Source}
    {bytes : List UInt8} {message : Text} (h : source.contents = (bytes, some message)) :
    let s : Scanner := { config }
    let report := s.scanSource capacity source
    report.error = some (.sourceFailed message) ∧ report.error.map Error.message = some message ∧
      report.tags = s.scanText (Utf8.decodeLossy (completePart bytes)) ∧
      (∀ n, .finished n ∉ report.events) ∧
      ∀ longCapacity more (longer : Source), 0 < longCapacity →
        longer.contents = (bytes ++ more, none) →
        report.tags <+: (s.scanSource longCapacity longer).tags := by
  intro s report
  have hreport : report = s.scanDelivery
      ⟨Text.cutAfter (· == newline) (completePart bytes), some message⟩ :=
    congrArg s.scanDelivery (Source.deliver_of_failure hc h)
  rw [hreport]
  refine ⟨rfl, rfl, ?_, ?_, ?_⟩
  · show s.scanLines ((Text.cutAfter (· == newline) (completePart bytes)).map decodeLine) = _
    rw [map_decodeLine_cutAfter]
    exact scanLines_trimLineEnd Lexicon.julia_regular _
  · intro n hmem
    have hevents : .finished n ∈ s.eventsFrom {}
        ((Text.cutAfter (· == newline) (completePart bytes)).map decodeLine) ++ [] := hmem
    rw [List.append_nil] at hevents
    exact finished_not_mem_eventsFrom s {} _ n hevents
  · intro longCapacity more longer hlong hlonger
    have htags : (s.scanSource longCapacity longer).tags =
        s.scanLines ((Text.cutAfter (· == newline) (bytes ++ more)).map decodeLine) := by
      unfold scanSource
      rw [Source.deliver_of_contents hlong hlonger]
      rfl
    rw [htags]
    exact scanLines_prefix s ((Delivery.cutAfter_completePart_prefix bytes more).map decodeLine)

/-- A source of two chunks, with an interruption between them. The first ends between the two
characters that end a line, and the failure comes in the middle of a character, which a longer source
completes. -/
theorem scanSource_of_failure_midCharacter :
    let first : List UInt8 := [0x74, 0x79, 0x70, 0x65, 0x20, 0x41, 0x0D]
    let second : List UInt8 := [0x0A, 0x74, 0x79, 0x70, 0x65, 0x20, 0xCF]
    let source : Source := [.data first, .interruption, .data second, .failure "disk".toList]
    let longer : Source := [.data (first ++ second), .data [0x83]]
    let report := scanSource {} 3 source
    0 < 3 ∧ source.contents = (first ++ second, some "disk".toList) ∧
      report.error.map Error.message = some "disk".toList ∧
      report.tags = [⟨"A".toList, .typeDef, ⟨1, 6⟩, none⟩] ∧ .finished 1 ∉ report.events ∧
      0 < 64 ∧ longer.contents = (first ++ second ++ [0x83], none) ∧
      report.tags <+: (scanSource {} 64 longer).tags ∧
      (scanSource {} 64 longer).tags = [⟨"A".toList, .typeDef, ⟨1, 6⟩, none⟩,
        ⟨"σ".toList, .typeDef, ⟨2, 6⟩, some (.ofPath "A".toList)⟩] := by
  intro first second source longer report
  have hcapacity : 0 < 3 := by decide
  have hlong : 0 < 64 := by decide
  have hcontents : source.contents = (first ++ second, some "disk".toList) := rfl
  have hlonger : longer.contents = (first ++ second ++ [0x83], none) := rfl
  obtain ⟨-, hmessage, htags, hfinished, hprefix⟩ := scanSource_of_failure {} hcapacity hcontents
  refine ⟨hcapacity, hcontents, hmessage, htags.trans ?_, hfinished 1, hlong, hlonger,
    hprefix 64 [0x83] longer hlong hlonger, ?_⟩
  · decide +kernel
  · decide +kernel

end Scanner

end Tagline
