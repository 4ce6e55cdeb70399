import Tagline.Scope

/-!
# Paths

The path of a stack grows with each definition that is opened, and blocks without a name leave it as
it is:

    path (.anonymous :: stack) = path stack                        (path_cons_anonymous)
    path (.named name :: stack) = extendPath (path stack) name     (path_cons_named)
    path (inner ++ outer) = joinPaths (path outer) (path inner)    (path_append)

It is empty only if no open scope has a name (path_eq_nil_iff).
-/

namespace Tagline

/-- The path inside the definition of a tag. -/
def Tag.innerPath (t : Tag) : Text :=
  match t.scope with
  | none => t.name
  | some outer => outer.path ++ '.' :: t.name

namespace ScopeStack

/-- The path inside a definition that stands inside scopes with a path. -/
def extendPath (path name : Text) : Text := if path = [] then name else path ++ '.' :: name

/-- The path inside two groups of scopes, of which one stands inside the other. -/
def joinPaths (outer inner : Text) : Text :=
  if outer = [] then inner else if inner = [] then outer else outer ++ '.' :: inner

/-- The names of the open definitions, outermost first. -/
def openNames (stack : ScopeStack) : List Text := stack.names.filter (· ≠ [])

/-! ## Joined names -/

theorem intercalate_cons {sep name : Text} {names : List Text} (h : names ≠ []) :
    sep.intercalate (name :: names) = name ++ sep ++ sep.intercalate names := by
  obtain ⟨second, rest, rfl⟩ := List.exists_cons_of_ne_nil h
  simp [List.intercalate]

theorem intercalate_append {sep : Text} {names more : List Text} (h : names ≠ []) (hmore : more ≠ []) :
    sep.intercalate (names ++ more) = sep.intercalate names ++ sep ++ sep.intercalate more := by
  induction names with
  | nil => exact absurd rfl h
  | cons first names ih =>
    cases names with
    | nil =>
      rw [List.singleton_append, intercalate_cons hmore]
      simp [List.intercalate]
    | cons second rest =>
      have hne : second :: rest ≠ [] := by simp
      rw [List.cons_append, intercalate_cons (by simp), ih hne, intercalate_cons hne]
      simp only [List.append_assoc]

theorem intercalate_append_singleton {sep name : Text} {names : List Text} (h : names ≠ []) :
    sep.intercalate (names ++ [name]) = sep.intercalate names ++ sep ++ name := by
  rw [intercalate_append h (by simp)]
  simp [List.intercalate]

theorem intercalate_eq_nil_iff {sep : Text} {names : List Text} (h : ∀ name ∈ names, name ≠ []) :
    sep.intercalate names = [] ↔ names = [] := by
  constructor
  · intro hnil
    cases names with
    | nil => rfl
    | cons first names =>
      have hfirst := h first (by simp)
      cases names with
      | nil => exact absurd (by simpa [List.intercalate] using hnil) hfirst
      | cons second rest =>
        rw [intercalate_cons (by simp)] at hnil
        exact absurd (List.append_eq_nil_iff.1 (List.append_eq_nil_iff.1 hnil).1).1 hfirst
  · rintro rfl
    rfl

/-! ## Paths of stacks -/

theorem path_eq_intercalate (stack : ScopeStack) : stack.path = ['.'].intercalate stack.openNames := rfl

@[simp] theorem path_nil : path [] = [] := rfl

theorem names_cons (scope : Scope) (stack : ScopeStack) :
    names (scope :: stack) = stack.names ++ [scope.name] := by
  simp [names]

@[simp] theorem openNames_cons_anonymous (stack : ScopeStack) :
    openNames (.anonymous :: stack) = stack.openNames := by
  unfold openNames
  rw [names_cons, List.filter_append]
  simp [Scope.name]

theorem openNames_cons_named {name : Text} (hname : name ≠ []) (stack : ScopeStack) :
    openNames (.named name :: stack) = stack.openNames ++ [name] := by
  unfold openNames
  rw [names_cons, List.filter_append]
  simp [Scope.name, hname]

theorem path_eq_nil_iff_openNames (stack : ScopeStack) : stack.path = [] ↔ stack.openNames = [] := by
  rw [path_eq_intercalate]
  apply intercalate_eq_nil_iff
  intro name hname
  simpa using (List.mem_filter.1 hname).2

/-- The path is empty only where no open scope has a name. -/
theorem path_eq_nil_iff (stack : ScopeStack) :
    stack.path = [] ↔ ∀ scope ∈ stack, scope.name = [] := by
  rw [path_eq_nil_iff_openNames, openNames, List.filter_eq_nil_iff]
  simp [names]

@[simp] theorem path_cons_anonymous (stack : ScopeStack) : path (.anonymous :: stack) = stack.path := by
  rw [path_eq_intercalate, openNames_cons_anonymous, path_eq_intercalate]

theorem path_cons_named {name : Text} (hname : name ≠ []) (stack : ScopeStack) :
    path (.named name :: stack) = extendPath stack.path name := by
  rw [path_eq_intercalate, openNames_cons_named hname]
  unfold extendPath
  split
  · next hnil =>
    rw [(path_eq_nil_iff_openNames stack).1 hnil]
    simp [List.intercalate]
  · next hne =>
    have hopen : stack.openNames ≠ [] := fun h => hne ((path_eq_nil_iff_openNames stack).2 h)
    rw [intercalate_append_singleton hopen, ← path_eq_intercalate]
    simp

theorem openNames_append (inner outer : ScopeStack) :
    openNames (inner ++ outer) = outer.openNames ++ inner.openNames := by
  unfold openNames names
  rw [List.reverse_append, List.map_append, List.filter_append]

/-- **The path of scopes inside others.** -/
theorem path_append (inner outer : ScopeStack) :
    path (inner ++ outer) = joinPaths outer.path inner.path := by
  unfold joinPaths
  rw [path_eq_intercalate, openNames_append]
  by_cases houter : outer.path = []
  · rw [if_pos houter, (path_eq_nil_iff_openNames outer).1 houter, List.nil_append,
      ← path_eq_intercalate]
  · rw [if_neg houter]
    have hopen : outer.openNames ≠ [] := mt (path_eq_nil_iff_openNames outer).2 houter
    by_cases hinner : inner.path = []
    · rw [if_pos hinner, (path_eq_nil_iff_openNames inner).1 hinner, List.append_nil,
        ← path_eq_intercalate]
    · rw [if_neg hinner]
      have hopen' : inner.openNames ≠ [] := mt (path_eq_nil_iff_openNames inner).2 hinner
      rw [intercalate_append hopen hopen', ← path_eq_intercalate, ← path_eq_intercalate,
        List.append_assoc, List.singleton_append]

theorem path_append_of_anonymous {opened : ScopeStack} (h : ∀ name, .named name ∉ opened)
    (stack : ScopeStack) : path (opened ++ stack) = stack.path := by
  induction opened with
  | nil => rfl
  | cons scope opened ih =>
    cases scope with
    | named name => exact absurd List.mem_cons_self (h name)
    | anonymous =>
      rw [List.cons_append, path_cons_anonymous, ih fun n hn => h n (List.mem_cons_of_mem _ hn)]

/-- A tag has a scope unless the path is empty. -/
theorem tagScope?_eq_none_iff (stack : ScopeStack) : stack.tagScope? = none ↔ stack.path = [] := by
  unfold tagScope?
  split <;> simp_all

theorem path_of_tagScope? {stack : ScopeStack} {scope : TagScope} (h : stack.tagScope? = some scope) :
    scope.path = stack.path := by
  unfold tagScope? at h
  split at h
  · simp at h
  · obtain rfl := Option.some.inj h
    rfl

/-- The path inside a definition, read off its tag. -/
theorem innerPath_eq_extendPath {t : Tag} (stack : ScopeStack) (h : t.scope = stack.tagScope?) :
    t.innerPath = extendPath stack.path t.name := by
  unfold Tag.innerPath extendPath
  rw [h, tagScope?]
  by_cases hpath : stack.path = []
  · simp [hpath]
  · simp [hpath, TagScope.ofPath]

/-- Where a scope with a name is open, there is an innermost one. -/
theorem exists_innermost {stack : ScopeStack} {name : Text} (h : .named name ∈ stack) :
    ∃ opened innermost outer, stack = opened ++ .named innermost :: outer ∧
      ∀ n, .named n ∉ opened := by
  induction stack with
  | nil => simp at h
  | cons scope stack ih =>
    cases scope with
    | named top => exact ⟨[], top, stack, rfl, by simp⟩
    | anonymous =>
      obtain ⟨opened, innermost, outer, rfl, hnone⟩ := ih (by simpa using h)
      exact ⟨.anonymous :: opened, innermost, outer, rfl, by simpa using hnone⟩

end ScopeStack

end Tagline
