import Tagline.Tag

/-!
# Scopes

The open scopes form a stack. What the words of a line do to it is a list of changes, so the stack
after a line is a fold, and the stack at the bottom of another one stays in place as long as nothing
below it is left:

    afterAll (s ++ base) cs = afterAll s cs ++ base                (afterAll_append_of_covers)
-/

namespace Tagline

/-- An open scope. -/
inductive Scope where
  | named (name : Text)
  | anonymous
deriving DecidableEq, Repr

/-- The name of a scope; empty for a block without one. -/
def Scope.name : Scope → Text
  | .named n => n
  | .anonymous => []

/-- What a word does to the open scopes. -/
inductive ScopeChange where
  | enter (scope : Scope)
  /-- Closes the innermost scope, and does nothing where none is open. -/
  | leave
deriving DecidableEq, Repr

/-- The open scopes, innermost first. -/
abbrev ScopeStack := List Scope

namespace ScopeStack

def after (stack : ScopeStack) : ScopeChange → ScopeStack
  | .enter s => s :: stack
  | .leave => stack.tail

def afterAll (stack : ScopeStack) (changes : List ScopeChange) : ScopeStack :=
  changes.foldl after stack

/-- The names of all open scopes, outermost first. -/
def names (stack : ScopeStack) : List Text := stack.reverse.map Scope.name

/-- The names of the open definitions, outermost first, joined by dots. -/
def path (stack : ScopeStack) : Text := ['.'].intercalate (stack.names.filter (· ≠ []))

/-- The scope of a tag that is defined inside the open scopes. -/
def tagScope? (stack : ScopeStack) : Option TagScope :=
  if stack.path = [] then none else some (TagScope.ofPath stack.path)

/-- Whether no change closes a scope that is not open. -/
def covers : ScopeStack → List ScopeChange → Bool
  | _, [] => true
  | [], .leave :: _ => false
  | stack, c :: changes => covers (stack.after c) changes

/-! ## Lemmas -/

@[simp] theorem afterAll_nil (stack : ScopeStack) : stack.afterAll [] = stack := rfl

@[simp] theorem afterAll_cons (stack : ScopeStack) (c : ScopeChange) (changes : List ScopeChange) :
    stack.afterAll (c :: changes) = (stack.after c).afterAll changes := rfl

theorem afterAll_append (stack : ScopeStack) (cs ds : List ScopeChange) :
    stack.afterAll (cs ++ ds) = (stack.afterAll cs).afterAll ds := by
  unfold afterAll
  rw [List.foldl_append]

theorem afterAll_append_of_covers {s : ScopeStack} {changes : List ScopeChange}
    (h : covers s changes = true) (base : ScopeStack) :
    afterAll (s ++ base) changes = afterAll s changes ++ base := by
  induction changes generalizing s with
  | nil => rfl
  | cons c changes ih =>
    cases c with
    | enter scope =>
      rw [afterAll_cons, afterAll_cons]
      exact ih (s := scope :: s) (by simpa [covers, after] using h)
    | leave =>
      cases s with
      | nil => simp [covers] at h
      | cons scope s =>
        rw [afterAll_cons, afterAll_cons]
        exact ih (s := s) (by simpa [covers, after] using h)

end ScopeStack

end Tagline
