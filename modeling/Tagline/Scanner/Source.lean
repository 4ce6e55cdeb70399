import Tagline.Error
import Tagline.Scanner.Run
import Tagline.Source
import Tagline.Text.Utf8

/-!
# Scanning a source

The lines of a source are decoded one by one, with a replacement for what is no UTF-8, and scanned
without anything that ends a line. The tags found before a failure are kept.
-/

namespace Tagline.Scanner

/-- The outcome of scanning a source. -/
structure Report where
  tags : List Tag
  events : List Event
  /-- The error that ended the scan before the source did. -/
  error : Option Error
deriving DecidableEq, Repr

def decodeLine (bytes : List UInt8) : Text := Text.trimLineEnd (Utf8.decodeLossy bytes)

/-- Scans what a source has delivered. The number of lines is told only if it has ended. -/
def scanDelivery (s : Scanner) (delivery : Delivery) : Report :=
  let lines := delivery.lines.map decodeLine
  { tags := s.scanLines lines
    events := s.eventsFrom {} lines ++
      (if delivery.failure.isNone then [.finished lines.length] else [])
    error := delivery.failure.map .sourceFailed }

/-- Scans a source through a buffer of the capacity. -/
def scanSource (s : Scanner) (capacity : Nat) (source : Source) : Report :=
  s.scanDelivery (source.deliver capacity)

end Tagline.Scanner
