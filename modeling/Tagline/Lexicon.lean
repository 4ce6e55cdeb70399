import Tagline.Kind

/-!
# Words of a language

The words by which a scan follows the blocks of a source text. Only these tables know the language;
how a line is read does not depend on the order in which they list their words.
-/

namespace Tagline

/-- The words and symbols that a scan looks for. -/
structure Lexicon where
  /-- Words that open a scope without a name where a line starts. -/
  controls : List Text
  /-- Words that start a definition where a line starts, with the kind of the definition. -/
  definitions : List (Text × Kind)
  /-- Words that open a scope without a name anywhere in a line. -/
  openers : List Text
  closer : Text
  /-- The word that hides the lines behind it, at the very start of a line. -/
  commentStart : Text
  /-- The word that ends a comment of several lines, at the very start of a line. -/
  commentEnd : Text
  /-- Symbols that can be the name of a function. -/
  operators : List Text
  openers_ne_nil : ∀ w ∈ openers, w ≠ [] := by decide
  closer_ne_nil : closer ≠ [] := by decide

/-- The words of Julia. Among the operators, none is the beginning of a later one. -/
def Lexicon.julia : Lexicon where
  controls := ["case", "for", "if", "unless", "quote", "let", "begin", "catch", "while"].map
    String.toList
  definitions :=
    [("function".toList, .function), ("class".toList, .classDef), ("module".toList, .moduleDef),
     ("describe".toList, .describe), ("context".toList, .context), ("macro".toList, .macroDef),
     ("type".toList, .typeDef), ("immutable".toList, .immutable)]
  openers := ["begin", "do"].map String.toList
  closer := "end".toList
  commentStart := "=begin".toList
  commentEnd := "=end".toList
  operators := ["[]=", "[]", "**", "+@", "-@", "<=>", "===", "==", "!=", "=~", "!~", ">>", "<<",
    "<=", ">=", "!", "~", "*", "/", "%", "+", "-", "&", "^", "|", "<", ">", "\x60"].map String.toList

end Tagline
