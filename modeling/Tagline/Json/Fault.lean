/-!
# Faults

Why a text in JSON cannot be decoded. Decoding reads from left to right and ends at the first fault.
-/

namespace Tagline.Json

inductive Fault where
  /-- The text ends where more must follow. -/
  | unfinished
  /-- The source fails where a byte is needed. -/
  | unreadable
  /-- The text is not JSON. -/
  | malformed
  /-- The text is JSON so far, but not of the expected form. -/
  | mismatched
deriving DecidableEq, Repr

end Tagline.Json
