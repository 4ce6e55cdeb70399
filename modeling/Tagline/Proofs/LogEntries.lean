import Mathlib.Data.List.Infix
import Tagline.Event
import Tagline.Proofs.Tokens

/-!
# Reading a log

An entry of a log is a text, from which a reader can tell which scope is opened or closed at which
depth, and which tag is reported:

    LogEntry.read? e.entry = some (LogEntry.ofEvent e)             (read?_entry)

How an entry starts shows what it is about. A name stands between quotes, but it can hold quotes
itself, and all of what stands behind it in an entry. It ends where the last label of the entry starts:
behind that there are digits only, and the label does not end in one (endNumber?_append).
-/

namespace Tagline

/-! ## Definitions -/

/-- What an entry of a log says about scopes and tags. A scope without a name has an empty one. -/
inductive LogEntry where
  | enter (name : Text) (depth : Nat)
  | leave (name : Text) (depth : Nat)
  | tag (kind : Kind) (name : Text) (position : Position)
  | other
deriving DecidableEq, Repr

namespace LogEntry

/-- How an entry about a scope with a name that is opened starts, up to the name. -/
def enterLabel : Text := "TRACE Enter scope '".toList

/-- How an entry about a scope without a name starts, up to the depth. -/
def anonymousLabel : Text := "TRACE Enter anonymous scope".toList

def leaveLabel : Text := "TRACE Leave scope '".toList

def tagLabel : Text := "DEBUG Tag ".toList

/-- The number at the end of a text, and what stands before the label in front of it. -/
def endNumber? (label t : Text) : Option (Text × Nat) :=
  let digits := (t.reverse.takeWhile Char.isDigit).reverse
  if digits = [] then none
  else ((label ++ digits).isSuffixOf? t).map (·, Nat.ofDigitChars 10 digits 0)

/-- A kind, and the name behind it up to the quote that is left out. -/
def kindAndName? (t : Text) : Option (Kind × Text) :=
  Kind.all.findSome? fun k => ((k.name ++ " '".toList).isPrefixOf? t).map (k, ·)

def readTag? (t : Text) : Option LogEntry :=
  (endNumber? ", column: ".toList t).bind fun p =>
    (endNumber? "' at line: ".toList p.1).bind fun q =>
      (kindAndName? q.1).map fun r => .tag r.1 r.2 ⟨q.2, p.2⟩

/-- Reads an entry of a log. An entry that starts like one about a scope or a tag has to go on in the
same way. -/
def read? (t : Text) : Option LogEntry :=
  match enterLabel.isPrefixOf? t with
  | some t => (endNumber? "' at depth ".toList t).map fun p => .enter p.1 p.2
  | none =>
    match anonymousLabel.isPrefixOf? t with
    | some t => (endNumber? " at depth ".toList t).map fun p => .enter [] p.2
    | none =>
      match leaveLabel.isPrefixOf? t with
      | some t => (endNumber? "' at depth ".toList t).map fun p => .leave p.1 p.2
      | none =>
        match tagLabel.isPrefixOf? t with
        | some t => readTag? t
        | none => some .other

def ofEvent : Event → LogEntry
  | .entered scope depth => .enter scope.name depth
  | .left scope depth => .leave scope.name depth
  | .tagged kind name position => .tag kind name position
  | _ => .other

end LogEntry

/-- Whether no text starts with both. -/
def Text.isApart (s t : Text) : Bool := !s.isPrefixOf t && !t.isPrefixOf s

/-! ## Beginnings -/

namespace Text

/-- A text that starts in another way does not start with the literal. -/
theorem isPrefixOf?_append_of_isApart {literal head : Text} (h : literal.isApart head = true)
    (t : Text) : literal.isPrefixOf? (head ++ t) = none := by
  simp only [isApart, Bool.and_eq_true, Bool.not_eq_true'] at h
  obtain ⟨hliteral, hhead⟩ := h
  cases hr : literal.isPrefixOf? (head ++ t) with
  | none => rfl
  | some r =>
    have hstart : literal <+: head ++ t := ⟨r, List.append_eq_of_isPrefixOf?_eq_some hr⟩
    rcases List.prefix_or_prefix_of_prefix hstart (List.prefix_append head t) with hp | hp
    · rw [List.isPrefixOf_iff_prefix.2 hp] at hliteral
      cases hliteral
    · rw [List.isPrefixOf_iff_prefix.2 hp] at hhead
      cases hhead

end Text

namespace LogEntry

/-! ## Numbers at the end -/

/-- **The last label** is found, whatever stands before it. -/
theorem endNumber?_append {label : Text} (hlabel : label.getLast?.any Char.isDigit = false)
    (hne : label ≠ []) (t : Text) (n : Nat) :
    endNumber? label (t ++ (label ++ Text.decimal n)) = some (t, n) := by
  have hdigits : ∀ c ∈ (Text.decimal n).reverse, c.isDigit = true := by
    intro c hc
    exact Text.isDigit_of_mem_decimal (List.mem_reverse.1 hc)
  have hstop : ∀ c ∈ (t ++ label).reverse.head?, c.isDigit = false := by
    intro c hc
    rw [List.head?_reverse, List.getLast?_append_of_ne_nil _ hne] at hc
    rw [Option.mem_def.1 hc] at hlabel
    exact hlabel
  have htake : ((t ++ (label ++ Text.decimal n)).reverse.takeWhile Char.isDigit).reverse =
      Text.decimal n := by
    rw [← List.append_assoc, List.reverse_append, Text.takeWhile_append_of_head hdigits hstop,
      List.reverse_reverse]
  unfold endNumber?
  simp only [htake, Text.decimal_ne_nil, if_false, List.isSuffixOf?_eq_some_iff_append_eq.2 rfl,
    Text.ofDigitChars_decimal, Option.map_some]

/-- The kind in front of a name is found. -/
theorem kindAndName?_append (k : Kind) (name : Text) :
    kindAndName? (k.name ++ " '".toList ++ name) = some (k, name) := by
  have hkinds : ∀ j ∈ Kind.all, ∀ k ∈ Kind.all,
      (j.name ++ " '".toList).isPrefixOf (k.name ++ " '".toList) = true → j = k := by
    decide +kernel
  have hfound : (kindAndName? (k.name ++ " '".toList ++ name)).isSome = true := by
    unfold kindAndName?
    rw [List.findSome?_isSome_iff]
    exact ⟨k, Kind.mem_all k, by rw [List.isPrefixOf?_eq_some_iff_append_eq.2 rfl]; rfl⟩
  obtain ⟨⟨j, r⟩, hj⟩ := Option.isSome_iff_exists.1 hfound
  obtain ⟨i, -, hi⟩ := List.exists_of_findSome?_eq_some hj
  obtain ⟨t, ht, hpair⟩ := Option.map_eq_some_iff.1 hi
  simp only [Prod.mk.injEq] at hpair
  obtain ⟨rfl, rfl⟩ := hpair
  have hsplit := List.append_eq_of_isPrefixOf?_eq_some ht
  -- of two kinds that start the text, one starts the other
  have hik : i = k := by
    have hi : i.name ++ " '".toList <+: k.name ++ " '".toList ++ name := ⟨t, hsplit⟩
    rcases List.prefix_or_prefix_of_prefix hi (List.prefix_append _ name) with hp | hp
    · exact hkinds i (Kind.mem_all i) k (Kind.mem_all k) (List.isPrefixOf_iff_prefix.2 hp)
    · exact (hkinds k (Kind.mem_all k) i (Kind.mem_all i) (List.isPrefixOf_iff_prefix.2 hp)).symm
  subst hik
  rw [hj, List.append_cancel_left hsplit]

theorem readTag?_append (k : Kind) (name : Text) (p : Position) :
    readTag? (k.name ++ " '".toList ++ name ++ ("' at line: ".toList ++ Text.decimal p.line) ++
      (", column: ".toList ++ Text.decimal p.column)) = some (.tag k name p) := by
  unfold readTag?
  rw [endNumber?_append (by decide) (by decide), Option.bind_some,
    endNumber?_append (by decide) (by decide), Option.bind_some, kindAndName?_append]
  rfl

/-! ## Entries -/

theorem read?_enter (name : Text) (depth : Nat) :
    read? (enterLabel ++ (name ++ ("' at depth ".toList ++ Text.decimal depth))) =
      some (.enter name depth) := by
  unfold read?
  rw [List.isPrefixOf?_eq_some_iff_append_eq.2 rfl]
  dsimp only
  rw [endNumber?_append (by decide) (by decide), Option.map_some]

theorem read?_anonymous (depth : Nat) :
    read? (anonymousLabel ++ (" at depth ".toList ++ Text.decimal depth)) =
      some (.enter [] depth) := by
  unfold read?
  rw [Text.isPrefixOf?_append_of_isApart (by decide +kernel), List.isPrefixOf?_eq_some_iff_append_eq.2 rfl]
  dsimp only
  rw [← List.nil_append (" at depth ".toList ++ _), endNumber?_append (by decide) (by decide),
    Option.map_some]

theorem read?_leave (name : Text) (depth : Nat) :
    read? (leaveLabel ++ (name ++ ("' at depth ".toList ++ Text.decimal depth))) =
      some (.leave name depth) := by
  unfold read?
  rw [Text.isPrefixOf?_append_of_isApart (by decide +kernel),
    Text.isPrefixOf?_append_of_isApart (by decide +kernel), List.isPrefixOf?_eq_some_iff_append_eq.2 rfl]
  dsimp only
  rw [endNumber?_append (by decide) (by decide), Option.map_some]

theorem read?_tag (t : Text) : read? (tagLabel ++ t) = readTag? t := by
  unfold read?
  rw [Text.isPrefixOf?_append_of_isApart (by decide +kernel),
    Text.isPrefixOf?_append_of_isApart (by decide +kernel),
    Text.isPrefixOf?_append_of_isApart (by decide +kernel), List.isPrefixOf?_eq_some_iff_append_eq.2 rfl]

/-- An entry that starts in none of these ways is about something else. -/
theorem read?_other {head : Text} (h : ∀ label ∈ [enterLabel, anonymousLabel, leaveLabel, tagLabel],
    label.isApart head = true) (t : Text) : read? (head ++ t) = some .other := by
  unfold read?
  rw [Text.isPrefixOf?_append_of_isApart (h _ (by simp)),
    Text.isPrefixOf?_append_of_isApart (h _ (by simp)),
    Text.isPrefixOf?_append_of_isApart (h _ (by simp)),
    Text.isPrefixOf?_append_of_isApart (h _ (by simp))]

/-- The entry about a scope with a name that is opened. -/
theorem entry_entered_named (name : Text) (depth : Nat) :
    (Event.entered (.named name) depth).entry =
      enterLabel ++ (name ++ ("' at depth ".toList ++ Text.decimal depth)) := by
  have hlabel : enterLabel = "TRACE".toList ++ ' ' :: ("Enter scope ".toList ++ ['\'']) := by
    decide +kernel
  have hdepth : "' at depth ".toList = '\'' :: " at depth ".toList := by decide +kernel
  show "TRACE".toList ++ ' ' :: ("Enter scope ".toList ++ ('\'' :: name ++ ['\'']) ++
    " at depth ".toList ++ Text.decimal depth) = _
  rw [hlabel, hdepth]
  simp only [List.append_assoc, List.cons_append, List.nil_append]

theorem entry_left (scope : Scope) (depth : Nat) :
    (Event.left scope depth).entry =
      leaveLabel ++ (scope.name ++ ("' at depth ".toList ++ Text.decimal depth)) := by
  have hlabel : leaveLabel = "TRACE".toList ++ ' ' :: ("Leave scope ".toList ++ ['\'']) := by
    decide +kernel
  have hdepth : "' at depth ".toList = '\'' :: " at depth ".toList := by decide +kernel
  show "TRACE".toList ++ ' ' :: ("Leave scope ".toList ++ ('\'' :: scope.name ++ ['\'']) ++
    " at depth ".toList ++ Text.decimal depth) = _
  rw [hlabel, hdepth]
  simp only [List.append_assoc, List.cons_append, List.nil_append]

theorem entry_tagged (kind : Kind) (name : Text) (p : Position) :
    (Event.tagged kind name p).entry =
      tagLabel ++ (kind.name ++ " '".toList ++ name ++ ("' at line: ".toList ++ Text.decimal p.line) ++
        (", column: ".toList ++ Text.decimal p.column)) := by
  have hlabel : tagLabel = "DEBUG".toList ++ ' ' :: "Tag ".toList := by decide +kernel
  have hquote : " '".toList = [' ', '\''] := by decide +kernel
  have hline : "' at line: ".toList = '\'' :: (" at ".toList ++ "line: ".toList) := by decide +kernel
  show "DEBUG".toList ++ ' ' :: ("Tag ".toList ++ kind.name ++ ' ' :: ('\'' :: name ++ ['\'']) ++
    " at ".toList ++ ("line: ".toList ++ Text.decimal p.line ++ ", column: ".toList ++
      Text.decimal p.column)) = _
  rw [hlabel, hquote, hline]
  simp only [List.append_assoc, List.cons_append, List.nil_append]

/-- **Entries can be read back**, whatever the names in them. -/
theorem read?_entry (e : Event) : read? e.entry = some (ofEvent e) := by
  cases e with
  | commentStarted n => exact @read?_other "TRACE Block".toList (by decide +kernel) _
  | commentEnded n => exact @read?_other "TRACE Block".toList (by decide +kernel) _
  | entered scope depth =>
    cases scope with
    | named name =>
      rw [entry_entered_named]
      exact read?_enter name depth
    | anonymous => exact read?_anonymous depth
  | left scope depth =>
    rw [entry_left]
    exact read?_leave scope.name depth
  | nameMissing kind n => exact @read?_other "TRACE No".toList (by decide +kernel) _
  | skipped kind name => exact @read?_other "TRACE Skipping".toList (by decide +kernel) _
  | tagged kind name p =>
    rw [entry_tagged, read?_tag, readTag?_append]
    rfl
  | finished n => exact @read?_other "DEBUG Scanned".toList (by decide +kernel) _

end LogEntry

end Tagline
