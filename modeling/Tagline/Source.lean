import Tagline.Text.Basic

/-!
# Sources of bytes

A source delivers chunks of bytes, and may be interrupted or fail in between. It is read through a
buffer: a read delivers bytes of one chunk only, and not more than the buffer holds. An interrupted
read is repeated, and a read that delivers nothing means that the source has ended.

Lines are collected while the blocks come in. A failure loses the line that is not finished. A reader
that wants no more than it needs takes one byte at a time.
-/

namespace Tagline

/-- What a source does next. -/
inductive Chunk where
  | data (bytes : List UInt8)
  | failure (message : Text)
  | interruption
deriving DecidableEq, Repr

/-- A source of bytes, as all that it does until it ends. -/
abbrev Source := List Chunk

inductive Read where
  | block (bytes : List UInt8)
  | failed (message : Text)
  | interrupted
deriving DecidableEq, Repr

/-- Cuts bytes into blocks that fit a buffer. A buffer without capacity gets an empty block. -/
def Read.blocks (capacity : Nat) (bytes : List UInt8) : List Read :=
  if bytes = [] then []
  else if capacity = 0 then [.block []]
  else .block (bytes.take capacity) :: blocks capacity (bytes.drop capacity)
termination_by bytes.length
decreasing_by
  have : bytes.length ≠ 0 := by simp_all
  rw [List.length_drop]
  omega

/-- The reads that deliver a chunk. An empty chunk takes none. -/
def Chunk.reads (capacity : Nat) : Chunk → List Read
  | .data bytes => Read.blocks capacity bytes
  | .failure message => [.failed message]
  | .interruption => [.interrupted]

/-- What some reads deliver as lines of bytes. -/
structure Delivery where
  /-- The lines, each but the last with its newline. -/
  lines : List (List UInt8)
  /-- The message of the failure that ended the delivery, if one did. -/
  failure : Option Text
deriving DecidableEq, Repr

namespace Delivery

def newline : UInt8 := 0x0A

/-- The lines that a block completes, and the bytes of the line it leaves unfinished. These stand in
reverse, last byte first, before the block as well as behind it. -/
def completeLines (unfinished : List UInt8) : List UInt8 → List (List UInt8) × List UInt8
  | [] => ([], unfinished)
  | b :: bytes =>
    if b = newline then
      let behind := completeLines [] bytes
      ((b :: unfinished).reverse :: behind.1, behind.2)
    else completeLines (b :: unfinished) bytes

/-- The lines that some reads deliver behind an unfinished line, whose bytes stand in reverse. -/
def ofReads (unfinished : List UInt8) : List Read → Delivery
  | .block (b :: bytes) :: reads =>
    let completed := completeLines unfinished (b :: bytes)
    let behind := ofReads completed.2 reads
    ⟨completed.1 ++ behind.lines, behind.failure⟩
  | .interrupted :: reads => ofReads unfinished reads
  | .failed message :: _ => ⟨[], some message⟩
  | _ => ⟨if unfinished = [] then [] else [unfinished.reverse], none⟩

end Delivery

namespace Source

def deliver (capacity : Nat) (source : Source) : Delivery :=
  Delivery.ofReads [] (source.flatMap (Chunk.reads capacity))

/-- All bytes of a source up to its end or to its first failure, and the message of that. -/
def contents : Source → List UInt8 × Option Text
  | [] => ([], none)
  | .data bytes :: chunks => (bytes ++ (contents chunks).1, (contents chunks).2)
  | .failure message :: _ => ([], some message)
  | .interruption :: chunks => contents chunks

/-- The next byte, and the source behind it; `none` where the source ends, and the message where it
fails. -/
def next? : Source → Except Text (Option (UInt8 × Source))
  | [] => .ok none
  | .data [] :: chunks => next? chunks
  | .data (b :: bytes) :: chunks => .ok (some (b, .data bytes :: chunks))
  | .failure message :: _ => .error message
  | .interruption :: chunks => next? chunks

/-- How many bytes are left up to the end or to the first failure. -/
def size : Source → Nat
  | [] => 0
  | .data bytes :: chunks => bytes.length + size chunks
  | .failure _ :: _ => 0
  | .interruption :: chunks => size chunks

end Source

end Tagline
