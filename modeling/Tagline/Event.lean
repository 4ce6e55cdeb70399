import Tagline.Scope

/-!
# Events

A scan tells what it does in a sequence of events. Each has a level and a message. An event about a
scope also gives the depth of the stack below that scope, so the events of a scan tell its whole
history of scopes.
-/

namespace Tagline

/-- Something that happens in a scan. -/
inductive Event where
  | commentStarted (line : Nat)
  | commentEnded (line : Nat)
  /-- A scope is opened with so many scopes around it. -/
  | entered (scope : Scope) (depth : Nat)
  /-- A scope is closed, and so many scopes around it stay open. -/
  | left (scope : Scope) (depth : Nat)
  /-- A word that starts a definition is followed by no name. -/
  | nameMissing (kind : Kind) (line : Nat)
  /-- A definition is not reported, because its kind is disabled. -/
  | skipped (kind : Kind) (name : Text)
  | tagged (kind : Kind) (name : Text) (position : Position)
  | finished (lines : Nat)
deriving DecidableEq, Repr

/-- How important an event is. -/
inductive Level where
  | trace
  | debug
deriving DecidableEq, Repr

def Level.name : Level → Text
  | .trace => "TRACE".toList
  | .debug => "DEBUG".toList

namespace Event

def level : Event → Level
  | .tagged .. | .finished _ => .debug
  | _ => .trace

def quoted (name : Text) : Text := '\'' :: name ++ ['\'']

def message : Event → Text
  | .commentStarted n => "Block comment starts at line ".toList ++ Text.decimal n
  | .commentEnded n => "Block comment ends at line ".toList ++ Text.decimal n
  | .entered (.named name) depth =>
    "Enter scope ".toList ++ quoted name ++ " at depth ".toList ++ Text.decimal depth
  | .entered .anonymous depth => "Enter anonymous scope at depth ".toList ++ Text.decimal depth
  | .left scope depth =>
    "Leave scope ".toList ++ quoted scope.name ++ " at depth ".toList ++ Text.decimal depth
  | .nameMissing kind n =>
    "No ".toList ++ kind.name ++ " name found at line ".toList ++ Text.decimal n
  | .skipped kind name => "Skipping disabled ".toList ++ kind.name ++ ' ' :: quoted name
  | .tagged kind name position =>
    "Tag ".toList ++ kind.name ++ ' ' :: quoted name ++ " at ".toList ++ position.toText
  | .finished n => "Scanned ".toList ++ Text.decimal n ++ " lines".toList

/-- The entry of an event in a log. -/
def entry (e : Event) : Text := e.level.name ++ ' ' :: e.message

end Event

namespace ScopeStack

/-- The event of a change. Nothing happens when no scope is open that could be left. -/
def event? (stack : ScopeStack) : ScopeChange → Option Event
  | .enter s => some (.entered s stack.length)
  | .leave =>
    match stack with
    | [] => none
    | s :: rest => some (.left s rest.length)

def events (stack : ScopeStack) : List ScopeChange → List Event
  | [] => []
  | c :: changes => (stack.event? c).toList ++ events (stack.after c) changes

theorem events_append (stack : ScopeStack) (cs ds : List ScopeChange) :
    stack.events (cs ++ ds) = stack.events cs ++ (stack.afterAll cs).events ds := by
  induction cs generalizing stack with
  | nil => rfl
  | cons c cs ih =>
    simp only [List.cons_append, events, afterAll_cons, ih, List.append_assoc]

/-- Changes cause no other events. -/
theorem exists_of_mem_events {stack : ScopeStack} {changes : List ScopeChange} {e : Event}
    (h : e ∈ stack.events changes) : ∃ scope depth, e = .entered scope depth ∨ e = .left scope depth := by
  induction changes generalizing stack with
  | nil => cases h
  | cons change changes ih =>
    rcases List.mem_append.1 h with hhere | hbehind
    · cases change with
      | enter scope => exact ⟨scope, stack.length, Or.inl (by simpa [event?] using hhere)⟩
      | leave =>
        cases stack with
        | nil => simp [event?] at hhere
        | cons scope stack => exact ⟨scope, stack.length, Or.inr (by simpa [event?] using hhere)⟩
    · exact ih hbehind

end ScopeStack

end Tagline
