import Tagline.Line.Name
import Tagline.Proofs.Tokens

/-!
# Reading a name

What is read for a function is decided by what follows the blanks: an operator, a receiver, or a
word. There is one equation for each case (readCallable_of_operator, readCallable_of_receiver,
readCallable_of_word), and one for a name that is not callable (readPlain_eq).

The kind of what is read follows from the text alone:

    (kind.readName operators c).1 = .named k name offset → k = kind.effective operators c.rest
                                                                   (eq_effective_of_readName)

A name of word characters in front of a parenthesis or the end of the line is read as it stands
(readName_of_isWord).
-/

namespace Tagline

/-- Whether a receiver stands in front of the name of a function: what follows the blanks is no
operator, and a dot stands behind its first word, which may be empty. -/
def Text.hasReceiver (operators : List Text) (t : Text) : Bool :=
  operators.all (fun w => (dropToken? w (t.dropWhile isBlank)).isNone) &&
    ((t.dropWhile isBlank).dropWhile isWord).head? == some '.'

namespace Kind

/-- The kind of the definition whose word stands for `kind` and is followed by the text. -/
def effective (kind : Kind) (operators : List Text) (t : Text) : Kind :=
  if kind.isCallable ∧ t.hasReceiver operators then .singletonMethod else kind

/-! ## Equations -/

section
variable {kind : Kind} {operators : List Text} {c : Cursor}

theorem readCallable_of_operator {operator : Text} {d : Cursor}
    (ho : c.skipBlank.eatAny? operators = some (operator, d)) :
    kind.readCallable operators c = (.named kind operator c.skipBlank.offset, d) := by
  rw [readCallable]
  simp only [ho]

theorem readCallable_of_receiver (ho : c.skipBlank.eatAny? operators = none)
    (hdot : (c.skipBlank.skipWhile Text.isWord).peek? = some '.') :
    kind.readCallable operators c =
      readCallable .singletonMethod operators (c.skipBlank.skipWhile Text.isWord).bump := by
  rw [readCallable]
  simp only [ho, hdot, if_true]

theorem readCallable_of_word (ho : c.skipBlank.eatAny? operators = none)
    (hdot : (c.skipBlank.skipWhile Text.isWord).peek? ≠ some '.') :
    kind.readCallable operators c =
      let behind := c.skipBlank.skipWhile Text.isWord
      let mark := behind.peek?.filter isNameMark
      (.named kind (c.skipBlank.rest.takeWhile Text.isWord ++ mark.toList) c.skipBlank.offset,
        if mark.isSome then behind.bump else behind) := by
  rw [readCallable]
  simp only [ho, hdot, if_false]
  cases (c.skipBlank.skipWhile Text.isWord).peek?.filter isNameMark with
  | none => simp
  | some mark => simp

theorem readPlain_eq :
    kind.readPlain c =
      if kind = .classDef ∧ "<<".toList.isPrefixOf c.skipBlank.rest then
        (.anonymousClass, c.skipBlank)
      else
        (.named kind (c.skipBlank.rest.takeWhile kind.admits) c.skipBlank.offset,
          c.skipBlank.skipWhile kind.admits) := rfl

end

/-! ## The kind that is read -/

theorem hasReceiver_of_operator {operators : List Text} {c d : Cursor} {operator : Text}
    (ho : c.skipBlank.eatAny? operators = some (operator, d)) :
    Text.hasReceiver operators c.rest = false := by
  obtain ⟨hmem, heat⟩ := Cursor.eatAny?_mem ho
  obtain ⟨hrest, hend, -⟩ := Cursor.eat?_eq_some.1 heat
  unfold Text.hasReceiver
  rw [Bool.and_eq_false_iff, List.all_eq_false]
  left
  refine ⟨operator, hmem, ?_⟩
  show ¬ (Text.dropToken? operator c.skipBlank.rest).isNone = true
  rw [Text.dropToken?_eq_some.2 ⟨hrest, hend⟩]
  simp

theorem hasReceiver_of_eatAny?_eq_none {operators : List Text} {c : Cursor}
    (ho : c.skipBlank.eatAny? operators = none) :
    Text.hasReceiver operators c.rest =
      ((c.skipBlank.skipWhile Text.isWord).peek? == some '.') := by
  have hall : (operators.all fun w => (Text.dropToken? w c.skipBlank.rest).isNone) = true := by
    rw [List.all_eq_true]
    intro w hw
    rw [Cursor.eatAny?_eq_none_iff.1 ho w hw]
    rfl
  show ((operators.all fun w => (Text.dropToken? w c.skipBlank.rest).isNone) && _) = _
  rw [hall, Bool.true_and]
  rfl

/-- A singleton method stays one behind any further receivers. -/
theorem readCallable_kind (kind : Kind) (operators : List Text) (c : Cursor) :
    ∃ k name offset, (kind.readCallable operators c).1 = .named k name offset ∧
      (kind = .singletonMethod → k = .singletonMethod) := by
  fun_induction readCallable kind operators c with
  | case1 kind c start operator behind ho => exact ⟨_, _, _, rfl, id⟩
  | case2 kind c start ho behind hdot ih =>
    obtain ⟨k, name, offset, hread, hk⟩ := ih
    exact ⟨k, name, offset, hread, fun _ => hk rfl⟩
  | case3 => exact ⟨_, _, _, rfl, id⟩
  | case4 => exact ⟨_, _, _, rfl, id⟩

theorem eq_effective_of_readCallable {kind k : Kind} {operators : List Text} {c : Cursor}
    {name : Text} {offset : Nat} (hcall : kind.isCallable = true)
    (hn : (kind.readCallable operators c).1 = .named k name offset) :
    k = kind.effective operators c.rest := by
  unfold effective
  cases ho : c.skipBlank.eatAny? operators with
  | some found =>
    rw [readCallable_of_operator ho] at hn
    simp only [NameReading.named.injEq] at hn
    simp [hasReceiver_of_operator ho, hn.1]
  | none =>
    rw [hasReceiver_of_eatAny?_eq_none ho]
    by_cases hdot : (c.skipBlank.skipWhile Text.isWord).peek? = some '.'
    · obtain ⟨k', name', offset', hread, hk⟩ := readCallable_kind .singletonMethod operators
        (c.skipBlank.skipWhile Text.isWord).bump
      rw [readCallable_of_receiver ho hdot, hread] at hn
      simp only [NameReading.named.injEq] at hn
      simp [hcall, hdot, ← hn.1, hk rfl]
    · rw [readCallable_of_word ho hdot] at hn
      simp only [NameReading.named.injEq] at hn
      simp [hdot, hn.1]

/-- **The kind that is read is the effective one.** -/
theorem eq_effective_of_readName {kind k : Kind} {operators : List Text} {c : Cursor} {name : Text}
    {offset : Nat} (hn : (kind.readName operators c).1 = .named k name offset) :
    k = kind.effective operators c.rest := by
  unfold readName at hn
  split at hn
  · next hcall => exact eq_effective_of_readCallable hcall hn
  · next hcall =>
    rw [readPlain_eq] at hn
    split at hn
    · simp at hn
    · simp only [NameReading.named.injEq] at hn
      simp [effective, hcall, ← hn.1]

/-! ## Names of word characters -/

theorem admits_of_isWord (kind : Kind) {a : Char} (ha : Text.isWord a = true) :
    kind.admits a = true := by
  simp only [Text.isWord, Bool.or_eq_true, beq_iff_eq] at ha
  unfold admits
  rcases ha with ha | rfl
  · simp [ha]
  · cases kind <;> decide

theorem not_admits_paren (kind : Kind) : kind.admits '(' = false := by
  cases kind <;> decide

section
variable {lexicon : Lexicon} (kind : Kind) {gap name tail : Text} (offset : Nat)
  (hgap : ∀ a ∈ gap, Text.isBlank a = true) (hne : name ≠ [])
  (hname : ∀ a ∈ name, Text.isWord a = true) (htail : ∀ a ∈ tail.head?, a = '(')

include hne hname

include hgap

theorem skipBlank_of_name : (Cursor.mk offset (gap ++ (name ++ tail))).skipBlank =
    ⟨offset + Text.byteSize gap, name ++ tail⟩ := by
  apply Cursor.skipWhile_append hgap
  intro a ha
  exact Text.not_isBlank_of_isWord (Text.isWord_head?_append hne hname a ha)

include htail

theorem readCallable_of_isWord (h : lexicon.Regular) :
    kind.readCallable lexicon.operators ⟨offset, gap ++ (name ++ tail)⟩ =
      (.named kind name (offset + Text.byteSize gap),
        ⟨offset + Text.byteSize gap + Text.byteSize name, tail⟩) := by
  have hstart : (Cursor.mk offset (gap ++ (name ++ tail))).skipBlank =
      ⟨offset + Text.byteSize gap, name ++ tail⟩ := skipBlank_of_name offset hgap hne hname
  have hops : (Cursor.mk offset (gap ++ (name ++ tail))).skipBlank.eatAny? lexicon.operators = none := by
    rw [hstart, Cursor.eatAny?_eq_none_iff]
    intro w hw
    apply Lexicon.dropToken?_symbol_eq_none h (by simp [Lexicon.symbols, hw])
    intro a ha
    exact Or.inr (Text.isWord_head?_append hne hname a ha)
  have hword : ∀ a ∈ tail.head?, Text.isWord a = false := by
    intro a ha
    rw [htail a ha]
    decide
  have hbehind : (Cursor.mk offset (gap ++ (name ++ tail))).skipBlank.skipWhile Text.isWord =
      ⟨offset + Text.byteSize gap + Text.byteSize name, tail⟩ := by
    rw [hstart]
    exact Cursor.skipWhile_append hname hword _
  have hdot : tail.head? ≠ some '.' := by
    intro hdot
    exact absurd (htail '.' hdot) (by decide)
  have hmark : tail.head?.filter isNameMark = none := by
    cases tail with
    | nil => rfl
    | cons a t =>
      obtain rfl := htail a rfl
      rfl
  rw [readCallable_of_word hops (by rw [hbehind]; exact hdot), hbehind]
  simp [Cursor.peek?, hmark, hstart, Text.takeWhile_append_of_head hname hword]

theorem readPlain_of_isWord :
    kind.readPlain ⟨offset, gap ++ (name ++ tail)⟩ =
      (.named kind name (offset + Text.byteSize gap),
        ⟨offset + Text.byteSize gap + Text.byteSize name, tail⟩) := by
  have hadmits : ∀ a ∈ name, kind.admits a = true := fun a ha => kind.admits_of_isWord (hname a ha)
  have hstop : ∀ a ∈ tail.head?, kind.admits a = false := by
    intro a ha
    rw [htail a ha]
    exact kind.not_admits_paren
  have hangle : "<<".toList.isPrefixOf (name ++ tail) = false := by
    obtain ⟨first, others, rfl⟩ := List.exists_cons_of_ne_nil hne
    have hfirst : '<' ≠ first := by
      rintro rfl
      exact absurd (hname '<' (by simp)) (by decide)
    simp [List.isPrefixOf, hfirst]
  rw [readPlain_eq, skipBlank_of_name offset hgap hne hname, hangle]
  simp only [Bool.false_eq_true, and_false, if_false, Text.takeWhile_append_of_head hadmits hstop,
    Cursor.skipWhile_append hadmits hstop]

/-- **A name of word characters that ends before a parenthesis is read as it stands.** -/
theorem readName_of_isWord (h : lexicon.Regular) :
    kind.readName lexicon.operators ⟨offset, gap ++ (name ++ tail)⟩ =
      (.named kind name (offset + Text.byteSize gap),
        ⟨offset + Text.byteSize gap + Text.byteSize name, tail⟩) := by
  unfold readName
  split
  · exact readCallable_of_isWord kind offset hgap hne hname htail h
  · exact readPlain_of_isWord kind offset hgap hne hname htail

end

end Kind

end Tagline
