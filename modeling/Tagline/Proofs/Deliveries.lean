import Tagline.Proofs.LineEnds
import Tagline.Source

/-!
# Deliveries

What a source delivers depends on its contents alone, and not on the chunks in which they come, on the
capacity of the buffer, or on interruptions. A source that does not fail delivers its bytes, cut behind
every newline:

    contents source = (bytes, none) → deliver capacity source = ⟨cutAfter (· == newline) bytes, none⟩
                                                                   (deliver_of_contents)

An unfinished line is carried from read to read, so lines are completed across the ends of blocks
(completeLines_append).
-/

namespace Tagline

namespace Delivery

/-! ## Lines of some bytes -/

/-- The last line, which no newline ends, if there is one. -/
def lastLine (unfinished : List UInt8) : List (List UInt8) :=
  if unfinished = [] then [] else [unfinished.reverse]

theorem completeLines_newline (unfinished bytes : List UInt8) :
    completeLines unfinished (newline :: bytes) =
      ((newline :: unfinished).reverse :: (completeLines [] bytes).1, (completeLines [] bytes).2) := by
  simp only [completeLines, if_true]

theorem completeLines_other {b : UInt8} (hb : b ≠ newline) (unfinished bytes : List UInt8) :
    completeLines unfinished (b :: bytes) = completeLines (b :: unfinished) bytes := by
  simp only [completeLines, if_neg hb]

theorem completeLines_append (unfinished bytes more : List UInt8) :
    completeLines unfinished (bytes ++ more) =
      let first := completeLines unfinished bytes
      let second := completeLines first.2 more
      (first.1 ++ second.1, second.2) := by
  induction bytes generalizing unfinished with
  | nil => rfl
  | cons b bytes ih =>
    rw [List.cons_append]
    by_cases hb : b = newline
    · subst hb
      simp only [completeLines_newline, ih, List.cons_append]
    · rw [completeLines_other hb, completeLines_other hb]
      exact ih (b :: unfinished)

/-- The lines of some bytes are what lies between the newlines. -/
theorem completeLines_eq_cutAfter {unfinished : List UInt8} (hu : newline ∉ unfinished)
    (bytes : List UInt8) :
    (completeLines unfinished bytes).1 ++ lastLine (completeLines unfinished bytes).2 =
      Text.cutAfter (· == newline) (unfinished.reverse ++ bytes) := by
  have hrev : newline ∉ unfinished.reverse := by rwa [List.mem_reverse]
  induction bytes generalizing unfinished with
  | nil =>
    rw [List.append_nil, Text.cutAfter_of_not_mem hrev]
    by_cases hnil : unfinished = []
    · subst hnil
      rfl
    · simp [completeLines, lastLine, hnil]
  | cons b bytes ih =>
    by_cases hb : b = newline
    · subst hb
      have hbehind := @ih [] (by simp) (by simp)
      rw [Text.cutAfter_append_cons hrev, completeLines_newline, List.cons_append, hbehind,
        List.reverse_cons]
      rfl
    · have hopen : newline ∉ b :: unfinished := by
        rw [List.mem_cons, not_or]
        exact ⟨Ne.symm hb, hu⟩
      rw [completeLines_other hb, ih hopen (by rwa [List.mem_reverse]), List.reverse_cons,
        List.append_assoc, List.singleton_append]

/-! ## Reads -/

/-- A block that is not empty completes some lines. -/
theorem ofReads_block {bytes : List UInt8} (hne : bytes ≠ []) (unfinished : List UInt8)
    (reads : List Read) :
    ofReads unfinished (.block bytes :: reads) =
      let completed := completeLines unfinished bytes
      let behind := ofReads completed.2 reads
      ⟨completed.1 ++ behind.lines, behind.failure⟩ := by
  obtain ⟨b, bytes, rfl⟩ := List.exists_cons_of_ne_nil hne
  rw [ofReads]

/-- The blocks of a chunk do what the chunk would do as one block. -/
theorem ofReads_blocks {capacity : Nat} (hc : 0 < capacity) (unfinished bytes : List UInt8)
    (reads : List Read) :
    ofReads unfinished (Read.blocks capacity bytes ++ reads) =
      let completed := completeLines unfinished bytes
      let behind := ofReads completed.2 reads
      ⟨completed.1 ++ behind.lines, behind.failure⟩ := by
  fun_induction Read.blocks capacity bytes generalizing unfinished with
  | case1 => rfl
  | case2 => omega
  | case3 bytes hne hcap ih =>
    have htake : bytes.take capacity ≠ [] := by
      rw [ne_eq, List.take_eq_nil_iff]
      simp [hne, hcap]
    have hsplit := completeLines_append unfinished (bytes.take capacity) (bytes.drop capacity)
    rw [List.take_append_drop] at hsplit
    rw [List.cons_append, ofReads_block htake, hsplit]
    simp only [ih, List.append_assoc]

/-- **The delivery of a source** follows from its contents. -/
theorem ofReads_reads {capacity : Nat} (hc : 0 < capacity) (unfinished : List UInt8)
    (source : Source) :
    ofReads unfinished (source.flatMap (Chunk.reads capacity)) =
      let completed := completeLines unfinished source.contents.1
      ⟨completed.1 ++ (if source.contents.2.isNone then lastLine completed.2 else []),
        source.contents.2⟩ := by
  induction source generalizing unfinished with
  | nil => rfl
  | cons chunk source ih =>
    rw [List.flatMap_cons]
    cases chunk with
    | data bytes =>
      rw [Chunk.reads, ofReads_blocks hc, Source.contents, completeLines_append]
      simp only [ih, List.append_assoc]
    | failure message => simp [Chunk.reads, ofReads, Source.contents, completeLines]
    | interruption => exact ih unfinished

end Delivery

namespace Source

open Delivery (newline)

/-- **A source that does not fail** delivers its bytes, cut behind every newline. -/
theorem deliver_of_contents {capacity : Nat} (hc : 0 < capacity) {source : Source}
    {bytes : List UInt8} (h : source.contents = (bytes, none)) :
    source.deliver capacity = ⟨Text.cutAfter (· == newline) bytes, none⟩ := by
  have hlines := Delivery.completeLines_eq_cutAfter List.not_mem_nil bytes
  unfold deliver
  rw [Delivery.ofReads_reads hc, h]
  simp only [Option.isNone_none, if_true, hlines, List.reverse_nil, List.nil_append]

end Source

end Tagline
