import Tagline.Config
import Tagline.Event
import Tagline.Line.Code

/-!
# Scanning a line

A scanner carries three things from line to line: how many lines there were, which scopes are open,
and whether it stands in a comment of several lines. A line changes these, gives at most one tag, and
causes events. Which scopes are open does not depend on what is reported.
-/

namespace Tagline

/-- Whether lines are read as code or passed over. -/
inductive Mode where
  | code
  | comment
deriving DecidableEq, Repr

/-- What a scan keeps between two lines. -/
structure ScanState where
  /-- The number of lines so far. -/
  line : Nat := 0
  scopes : ScopeStack := []
  mode : Mode := .code
deriving DecidableEq, Repr

structure LineResult where
  state : ScanState
  /-- The definition that is reported. -/
  tag : Option Tag
  events : List Event
deriving DecidableEq, Repr

/-- A scanner for one language. It can be used for any number of texts. -/
structure Scanner where
  config : Config := {}
  lexicon : Lexicon := .julia

namespace Scanner

/-- The tag of a heading that is read inside the open scopes, if its kind is reported. -/
def tag? (s : Scanner) (number : Nat) (line : Text) (scopes : ScopeStack) : Heading → Option Tag
  | .unnamed _ => none
  | .named kind name offset =>
    if s.config.isEnabled kind then
      some ⟨name, kind, Position.inLine number line offset, scopes.tagScope?⟩
    else none

def headingEvent (s : Scanner) (number : Nat) (line : Text) : Heading → Event
  | .unnamed kind => .nameMissing kind number
  | .named kind name offset =>
    if s.config.isEnabled kind then .tagged kind name (Position.inLine number line offset)
    else .skipped kind name

/-- Scans a line of code with some open scopes. -/
def scanCode (s : Scanner) (number : Nat) (scopes : ScopeStack) (line : Text) : LineResult :=
  let code := CodeLine.read s.lexicon line
  let outer := scopes.afterAll code.lead
  let inner := outer.afterAll code.opened
  { state := ⟨number, inner.afterAll code.blocks, .code⟩
    tag := code.heading.bind (s.tag? number line outer)
    events := scopes.events code.lead ++ outer.events code.opened ++
      (code.heading.map (s.headingEvent number line)).toList ++ inner.events code.blocks }

def scanLine (s : Scanner) (state : ScanState) (line : Text) : LineResult :=
  let number := state.line + 1
  match s.lexicon.marker? line with
  | some .commentStart => ⟨⟨number, state.scopes, .comment⟩, none, [.commentStarted number]⟩
  | some .commentEnd => ⟨⟨number, state.scopes, .code⟩, none, [.commentEnded number]⟩
  | none =>
    match state.mode with
    | .comment => ⟨⟨number, state.scopes, .comment⟩, none, []⟩
    | .code => s.scanCode number state.scopes line

end Scanner

end Tagline
