import Tagline.Kind
import Tagline.Text.Cursor

/-!
# Names of definitions

The name of a function is an operator, or a word that may end in one of `?`, `!` and `=`. A word with
a dot behind it is a receiver: it is dropped, and what follows is the name of a singleton method. All
other names are the longest run of characters that their kind admits.

The cursor ends right behind the name.
-/

namespace Tagline

/-- What stands where a name is expected. -/
inductive NameReading where
  /-- A class without a name, as in `class << HTTP`. -/
  | anonymousClass
  /-- A name, which may be empty, with the kind of the definition and the offset where it starts. -/
  | named (kind : Kind) (name : Text) (offset : Nat)
deriving DecidableEq, Repr

/-- Whether a character can stand at the end of the name of a function, and only there. -/
def isNameMark (c : Char) : Bool := c == '?' || c == '!' || c == '='

namespace Kind

/-- Whether a character can stand in a name of the kind, if that is not callable. The titles of
`describe` and `context` blocks are free text. -/
def admits (k : Kind) (c : Char) : Bool :=
  Text.isAlphanumeric c ||
    match k with
    | .describe | .context => " ,\".#_?!='/-".toList.contains c
    | _ => c == '_'

/-- Reads the name of a function, behind any receivers. -/
def readCallable (kind : Kind) (operators : List Text) (c : Cursor) : NameReading × Cursor :=
  let start := c.skipBlank
  match start.eatAny? operators with
  | some (operator, behind) => (.named kind operator start.offset, behind)
  | none =>
    let word := start.rest.takeWhile Text.isWord
    let behind := start.skipWhile Text.isWord
    if behind.peek? = some '.' then readCallable .singletonMethod operators behind.bump
    else
      match behind.peek?.filter isNameMark with
      | some mark => (.named kind (word ++ [mark]) start.offset, behind.bump)
      | none => (.named kind word start.offset, behind)
termination_by c.rest.length
decreasing_by
  have hdot : (c.skipBlank.skipWhile Text.isWord).rest ≠ [] := by
    intro h
    have hd : (c.skipBlank.skipWhile Text.isWord).peek? = some '.' := by assumption
    simp [Cursor.peek?, h] at hd
  have h1 := Cursor.length_rest_bump_lt hdot
  have h2 := Cursor.length_rest_skipWhile_le Text.isWord c.skipBlank
  have h3 := Cursor.length_rest_skipBlank_le c
  omega

/-- Reads the name of a definition that is not callable. -/
def readPlain (kind : Kind) (c : Cursor) : NameReading × Cursor :=
  let start := c.skipBlank
  if kind = .classDef ∧ "<<".toList.isPrefixOf start.rest then (.anonymousClass, start)
  else (.named kind (start.rest.takeWhile kind.admits) start.offset, start.skipWhile kind.admits)

def readName (kind : Kind) (operators : List Text) (c : Cursor) : NameReading × Cursor :=
  if kind.isCallable then kind.readCallable operators c else kind.readPlain c

end Kind

end Tagline
