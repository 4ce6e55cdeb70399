import Tagline.Line.Block
import Tagline.Line.Name

/-!
# Lines of code

What a line says is read off its text alone: whether a control word starts it, which definition it
starts with, and which blocks it opens and closes. A definition word counts only where the line
starts, or right behind the control word.
-/

namespace Tagline

/-- A line that hides or shows the lines behind it. -/
inductive Marker where
  | commentStart
  | commentEnd
deriving DecidableEq, Repr

namespace Lexicon

/-- The marker that a line is, if it is one. A marker is not indented. -/
def marker? (lexicon : Lexicon) (line : Text) : Option Marker :=
  if (Text.dropToken? lexicon.commentStart line).isSome then some .commentStart
  else if (Text.dropToken? lexicon.commentEnd line).isSome then some .commentEnd
  else none

end Lexicon

/-- The definition that a line starts with. -/
inductive Heading where
  /-- A word that starts definitions of the kind, with no name behind it. -/
  | unnamed (kind : Kind)
  /-- A definition, with the offset where its name starts. -/
  | named (kind : Kind) (name : Text) (offset : Nat)
deriving DecidableEq, Repr

/-- Reads the definition word at the cursor and the name behind it. A word that no blank follows
starts no definition. -/
def Lexicon.readHeading (lexicon : Lexicon) (c : Cursor) : Option Heading × Cursor :=
  match lexicon.definitions.findSome? fun (word, kind) => (c.eat? word).map (kind, ·) with
  | none => (none, c)
  | some (kind, d) =>
    if d.peek?.any Text.isBlank then
      match kind.readName lexicon.operators d with
      | (.anonymousClass, e) => (some (.unnamed kind), e)
      | (.named _ [] _, e) => (some (.unnamed kind), e)
      | (.named effective name offset, e) => (some (.named effective name offset), e)
    else (none, d)

/-- What a line of code says. -/
structure CodeLine where
  /-- Whether a control word starts the line. -/
  control : Bool
  heading : Option Heading
  /-- The blocks that the rest of the line opens and closes. -/
  blocks : List ScopeChange
deriving DecidableEq, Repr

namespace CodeLine

def read (lexicon : Lexicon) (line : Text) : CodeLine :=
  let start := (Cursor.ofLine line).skipBlank
  let controlled := start.eatAny? lexicon.controls
  let heading := lexicon.readHeading ((controlled.map (·.2)).getD start)
  ⟨controlled.isSome, heading.1, (lexicon.blockChanges heading.2).1⟩

/-- The scope that the control word opens. -/
def lead (code : CodeLine) : List ScopeChange :=
  if code.control then [.enter .anonymous] else []

/-- The scope that the definition opens. -/
def opened (code : CodeLine) : List ScopeChange :=
  match code.heading with
  | some (.named _ name _) => [.enter (.named name)]
  | _ => []

def changes (code : CodeLine) : List ScopeChange := code.lead ++ code.opened ++ code.blocks

end CodeLine

end Tagline
