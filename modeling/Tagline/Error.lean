import Tagline.Json.Fault
import Tagline.Text.Basic

/-!
# Errors

Scanning a text never fails. What can fail is the source of the lines, and reading a configuration.
-/

namespace Tagline

/-- Why an operation has no result. -/
inductive Error where
  | sourceFailed (message : Text)
  /-- The text of a configuration cannot be decoded. -/
  | invalidConfig (fault : Json.Fault)
deriving DecidableEq, Repr

def Error.message : Error → Text
  | .sourceFailed message => message
  | .invalidConfig _ => "Invalid scanner configuration".toList

end Tagline
