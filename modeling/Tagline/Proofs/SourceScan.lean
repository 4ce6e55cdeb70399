import Tagline.Proofs.Deliveries
import Tagline.Proofs.LossyLines
import Tagline.Proofs.PaddedLines
import Tagline.Scanner.Source

/-!
# Sources and texts

Scanning a source and scanning a text are two ways to the same tags. The first cuts bytes, decodes
each line on its own and drops all of its end; the second decodes everything, cuts the text, and drops
one newline with the carriage return before it. The lines are the same because decoding commutes with
cutting (map_decodeLossy_cutAfter), and what is left of their ends is padding
(exists_dropLineEnd_eq), which no scan sees (run_append_padding).
-/

namespace Tagline.Scanner

open Delivery (newline)

/-- The lines of a source that does not fail are those of its text, without what is left of their
ends. -/
theorem map_decodeLine_cutAfter (bytes : List UInt8) :
    (Text.cutAfter (· == newline) bytes).map decodeLine =
      (Text.cutAfter (· == '\n') (Utf8.decodeLossy bytes)).map Text.trimLineEnd := by
  rw [← Utf8.map_decodeLossy_cutAfter, List.map_map]
  rfl

/-- **The two ways to drop the ends of lines** give the same tags. -/
theorem scanLines_trimLineEnd {s : Scanner} (h : s.lexicon.Regular) (t : Text) :
    s.scanLines ((Text.cutAfter (· == '\n') t).map Text.trimLineEnd) = s.scanText t := by
  obtain ⟨htags, -⟩ := run_append_padding h Text.exists_dropLineEnd_eq {} (Text.cutAfter (· == '\n') t)
  exact htags.symm

/-- **Scanning a source is scanning its text.** A source that does not fail gives no error, whatever
its chunks, its interruptions and the capacity of the buffer. Its tags are those of its bytes as a
text, and its last event tells the number of lines of that text. -/
theorem scanSource_eq_scanText (config : Config) {capacity : Nat} (hc : 0 < capacity)
    {source : Source} {bytes : List UInt8} (h : source.contents = (bytes, none)) :
    let s : Scanner := { config := config }
    let report := s.scanSource capacity source
    let text := Utf8.decodeLossy bytes
    report.error = none ∧ report.tags = s.scanText text ∧
      report.events.getLast? = some (.finished (Text.lines text).length) := by
  intro s report text
  have hlines : (source.deliver capacity).lines.map decodeLine =
      (Text.cutAfter (· == '\n') text).map Text.trimLineEnd := by
    rw [Source.deliver_of_contents hc h]
    exact map_decodeLine_cutAfter bytes
  have hfailure : (source.deliver capacity).failure = none := by rw [Source.deliver_of_contents hc h]
  refine ⟨?_, ?_, ?_⟩
  · show (source.deliver capacity).failure.map _ = none
    rw [hfailure]
    rfl
  · show s.scanLines ((source.deliver capacity).lines.map decodeLine) = s.scanText text
    rw [hlines]
    exact scanLines_trimLineEnd Lexicon.julia_regular text
  · show (s.eventsFrom {} ((source.deliver capacity).lines.map decodeLine) ++ _).getLast? = _
    simp [hfailure, hlines, Text.lines]

/-- A source of two chunks, with an interruption between them. The first line ends in a byte that is no
UTF-8 and in carriage returns, the second in no newline. -/
theorem scanSource_eq_scanText_interrupted :
    let source : Source := [.data [0x74, 0x79, 0x70, 0x65, 0x20, 0x41, 0xC3, 0x0D], .interruption,
      .data [0x0D, 0x0A, 0x65, 0x6E, 0x64, 0x0D]]
    let bytes : List UInt8 := [0x74, 0x79, 0x70, 0x65, 0x20, 0x41, 0xC3, 0x0D, 0x0D, 0x0A, 0x65,
      0x6E, 0x64, 0x0D]
    let report := scanSource {} 3 source
    0 < 3 ∧ source.contents = (bytes, none) ∧
      report.error = none ∧ report.tags = [⟨"A".toList, .typeDef, ⟨1, 6⟩, none⟩] ∧
      report.events.getLast? = some (.finished 2) := by
  intro source bytes report
  have hcapacity : 0 < 3 := by decide
  have hcontents : source.contents = (bytes, none) := rfl
  obtain ⟨herror, htags, hlast⟩ := scanSource_eq_scanText {} hcapacity hcontents
  refine ⟨hcapacity, hcontents, herror, htags.trans ?_, hlast.trans ?_⟩
  · decide +kernel
  · decide +kernel

end Tagline.Scanner
