import Tagline.Proofs.NameGrammar
import Tagline.Proofs.Slices

/-!
# Names in slices

A name is read off slices one character after another, and the reading starts again behind a receiver.
Whether a character belongs to the name, ends it or makes a receiver of it is asked at each of them.
All this is what a cursor reads at once as the longest run of such characters (Follows.collect), so
the reading never fails, and it ends with what the cursor reads:

    Follows line (readName operators kind) c
      (kind.readName operators c).1 (kind.readName operators c).2  (follows_readName)
-/

namespace Tagline

namespace Slicing

/-! ## Definitions -/

def offset : Slicing Nat := fun s => some (s.offset, s)

/-- Looks at the character behind a part of a name: whether a dot makes a receiver of it, a mark ends
it, or the name goes on. -/
def collectStep (kind : Kind) (name : Text) : Slicing (Text ⊕ Option Text) := do
  match ← peek with
  | none => return .inr (some name)
  | some a =>
    if kind.isCallable && a == '.' then
      let _ ← bump
      return .inr none
    else if kind.isCallable && isNameMark a then
      let _ ← bump
      return .inr (some (name ++ [a]))
    else if kind.admits a then
      let _ ← bump
      return .inl (name ++ [a])
    else return .inr (some name)

/-- Collects the characters of a name, one by one. A receiver is no name. -/
def collect (kind : Kind) (name : Text) : Slicing (Option Text) := loop (collectStep kind) name

/-- Whether a class without a name follows. -/
def isAnonymous (kind : Kind) : Slicing Bool := do
  if kind = .classDef then return "<<".toList.isPrefixOf (← rest)
  else return false

/-- Passes an operator, where it can be a name of the kind. -/
def operator? (operators : List Text) (kind : Kind) : Slicing (Option Text) :=
  if kind.isCallable then eatAny operators else return none

/-- What is made of the collected characters: a name, or a receiver to start again behind. -/
def collected (kind : Kind) (start : Nat) : Option Text → Kind ⊕ NameReading
  | some name => .inr (.named kind name start)
  | none => .inl .singletonMethod

/-- Reads the name of a definition of the kind, or a receiver in front of it. -/
def nameStep (operators : List Text) (kind : Kind) : Slicing (Kind ⊕ NameReading) := do
  skipBlank
  if ← isAnonymous kind then return .inr .anonymousClass
  else
    let start ← offset
    match ← operator? operators kind with
    | some operator => return .inr (.named kind operator start)
    | none => return collected kind start (← collect kind [])

def readName (operators : List Text) (kind : Kind) : Slicing NameReading :=
  loop (nameStep operators) kind

variable {line : Text} {c d e : Cursor}

theorem follows_offset (hc : c.StandsIn line) : Follows line offset c c.offset c := ⟨rfl, hc⟩

/-! ## Characters -/

theorem admits_eq_isWord {kind : Kind} (hcall : kind.isCallable = true) : kind.admits = Text.isWord := by
  cases kind with
  | function => rfl
  | singletonMethod => rfl
  | _ => simp [Kind.isCallable] at hcall

/-- What ends the name of a function is no part of a word. -/
theorem not_isWord_of_ends {a : Char} (ha : a = '.' ∨ isNameMark a = true) : Text.isWord a = false := by
  have hall : (['.', '?', '!', '='].any Text.isWord) = false := by decide
  have hmem : a ∈ ['.', '?', '!', '='] := by simpa [isNameMark, or_assoc] using ha
  exact Bool.eq_false_iff.2 (List.any_eq_false.1 hall a hmem)

/-- A character that cannot end the name does not end the loop. -/
theorem not_ends {kind : Kind} {a : Char}
    (ha : kind.isCallable = true → ¬ (a = '.' ∨ isNameMark a = true)) :
    ¬ (kind.isCallable && a == '.') = true ∧ ¬ (kind.isCallable && isNameMark a) = true := by
  rw [Bool.and_eq_true, Bool.and_eq_true, beq_iff_eq]
  exact ⟨fun h => ha h.1 (Or.inl h.2), fun h => ha h.1 (Or.inr h.2)⟩

section
variable {kind : Kind} {name : Text}

/-- The characters that the kind admits are collected first. -/
theorem Follows.collect {x : Option Text} (hc : c.StandsIn line)
    (hbehind : Follows line (collect kind (name ++ c.rest.takeWhile kind.admits))
      (c.skipWhile kind.admits) x d) :
    Follows line (Slicing.collect kind name) c x d := by
  obtain ⟨offset, rest⟩ := c
  induction rest generalizing offset name with
  | nil =>
    rw [List.takeWhile_nil, List.append_nil] at hbehind
    exact hbehind
  | cons a t ih =>
    by_cases ha : kind.admits a = true
    · rw [List.takeWhile_cons_of_pos ha, Cursor.skipWhile_cons_of_pos ha, List.append_cons] at hbehind
      -- a character of a word is neither a dot nor a mark, so the loop comes to its last question
      have hends : kind.isCallable = true → ¬ (a = '.' ∨ isNameMark a = true) := by
        intro hcall hends
        rw [admits_eq_isWord hcall, not_isWord_of_ends hends] at ha
        exact Bool.false_ne_true ha
      obtain ⟨hdot, hmark⟩ := not_ends hends
      refine .loop_round ((follows_peek hc).bind ?_) hc (Nat.lt_succ_self t.length)
        (ih _ hc.bump hbehind)
      show Follows line (if _ then _ else _) _ _ _
      rw [if_neg hdot, if_neg hmark, if_pos ha]
      exact (follows_bump hc).bind (.pure hc.bump _)
    · rw [List.takeWhile_cons_of_neg ha, Cursor.skipWhile_cons_of_neg ha, List.append_nil] at hbehind
      exact hbehind

theorem follows_collect_dot (hc : c.StandsIn line) (hcall : kind.isCallable = true)
    (hdot : c.peek? = some '.') : Follows line (collect kind name) c none c.bump := by
  refine .loop_done ((follows_peek hc).bind ?_)
  rw [hdot]
  show Follows line (if _ then _ else _) _ _ _
  rw [if_pos (by rw [hcall]; rfl)]
  exact (follows_bump hc).bind (.pure hc.bump _)

theorem follows_collect_mark (hc : c.StandsIn line) (hcall : kind.isCallable = true) {mark : Char}
    (hpeek : c.peek? = some mark) (hmark : isNameMark mark = true) :
    Follows line (collect kind name) c (some (name ++ [mark])) c.bump := by
  have hdot : mark ≠ '.' := by
    rintro rfl
    exact absurd hmark (by decide)
  refine .loop_done ((follows_peek hc).bind ?_)
  rw [hpeek]
  show Follows line (if _ then _ else if _ then _ else _) _ _ _
  rw [if_neg (by simp [hdot]), if_pos (by rw [hcall, hmark]; rfl)]
  exact (follows_bump hc).bind (.pure hc.bump _)

/-- A character that the kind does not admit, and that does not end a name, ends the name in front. -/
theorem follows_collect_stop (hc : c.StandsIn line) (hadmits : ∀ a ∈ c.peek?, kind.admits a = false)
    (hends : kind.isCallable = true → ∀ a ∈ c.peek?, ¬ (a = '.' ∨ isNameMark a = true)) :
    Follows line (collect kind name) c (some name) c := by
  refine .loop_done ((follows_peek hc).bind ?_)
  cases hpeek : c.peek? with
  | none => exact .pure hc _
  | some a =>
    have ha : ¬ kind.admits a = true := by
      rw [hadmits a hpeek]
      exact Bool.false_ne_true
    obtain ⟨hdot, hmark⟩ := not_ends fun hcall => hends hcall a hpeek
    show Follows line (if _ then _ else if _ then _ else if _ then _ else _) _ _ _
    rw [if_neg hdot, if_neg hmark, if_neg ha]
    exact .pure hc _

end

/-! ## Readings -/

section
variable {operators : List Text} {kind : Kind}

theorem follows_isAnonymous (hc : c.StandsIn line) :
    Follows line (isAnonymous kind) c
      (decide (kind = .classDef ∧ "<<".toList.isPrefixOf c.rest = true)) c := by
  unfold isAnonymous
  by_cases hkind : kind = .classDef
  · rw [if_pos hkind]
    simp only [hkind, true_and, Bool.decide_eq_true]
    exact (follows_rest hc).bind (.pure hc _)
  · rw [if_neg hkind]
    simp only [hkind, false_and, decide_false]
    exact .pure hc false

theorem follows_operator?_none (hc : c.StandsIn line)
    (hnone : kind.isCallable = true → c.eatAny? operators = none) :
    Follows line (operator? operators kind) c none c := by
  unfold operator?
  by_cases hcall : kind.isCallable = true
  · have heat := follows_eatAny operators hc
    rw [hnone hcall] at heat
    rw [if_pos hcall]
    exact heat
  · rw [if_neg hcall]
    exact .pure hc none

/-- A round that collects a name, or a receiver, behind the blanks. -/
theorem follows_nameStep_collected {x : Option Text} (hc : c.StandsIn line)
    (hclass : ¬ (kind = .classDef ∧ "<<".toList.isPrefixOf c.skipBlank.rest = true))
    (hnone : kind.isCallable = true → c.skipBlank.eatAny? operators = none)
    (hcollect : Follows line (collect kind []) c.skipBlank x d) :
    Follows line (nameStep operators kind) c (collected kind c.skipBlank.offset x) d := by
  refine (follows_skipBlank hc).bind ((follows_isAnonymous hc.skipBlank).bind ?_)
  rw [decide_eq_false hclass]
  exact (follows_offset hc.skipBlank).bind ((follows_operator?_none hc.skipBlank hnone).bind
    (hcollect.bind (.pure hcollect.standsIn _)))

theorem not_classDef_of_isCallable (hcall : kind.isCallable = true) : kind ≠ .classDef := by
  rintro rfl
  exact Bool.false_ne_true hcall

/-- A round that collects the name of a function, or a receiver, with what ends its word. -/
theorem follows_nameStep_word {x : Option Text} (hcall : kind.isCallable = true) (hc : c.StandsIn line)
    (hnone : c.skipBlank.eatAny? operators = none)
    (hends : Follows line (collect kind (c.skipBlank.rest.takeWhile Text.isWord))
      (c.skipBlank.skipWhile Text.isWord) x d) :
    Follows line (nameStep operators kind) c (collected kind c.skipBlank.offset x) d := by
  have hcollect : Follows line (collect kind []) c.skipBlank x d := by
    refine Follows.collect hc.skipBlank ?_
    rw [admits_eq_isWord hcall]
    exact hends
  exact follows_nameStep_collected hc (fun h => not_classDef_of_isCallable hcall h.1)
    (fun _ => hnone) hcollect

/-- A receiver is passed with its dot. -/
theorem length_rest_receiver_lt (hdot : (c.skipBlank.skipWhile Text.isWord).peek? = some '.') :
    (c.skipBlank.skipWhile Text.isWord).bump.rest.length < c.rest.length := by
  have hne : (c.skipBlank.skipWhile Text.isWord).rest ≠ [] := by
    intro hnil
    simp [Cursor.peek?_of_nil hnil] at hdot
  calc (c.skipBlank.skipWhile Text.isWord).bump.rest.length
      < (c.skipBlank.skipWhile Text.isWord).rest.length := Cursor.length_rest_bump_lt hne
    _ ≤ c.skipBlank.rest.length := Cursor.length_rest_skipWhile_le Text.isWord c.skipBlank
    _ ≤ c.rest.length := Cursor.length_rest_skipBlank_le c

theorem follows_readCallable (hcall : kind.isCallable = true) (hc : c.StandsIn line) :
    Follows line (readName operators kind) c (kind.readCallable operators c).1
      (kind.readCallable operators c).2 := by
  -- each receiver that the reading drops is a round of the loop
  fun_induction Kind.readCallable kind operators c with
  | case1 kind c start operator behind ho =>
    have heat := follows_eatAny operators hc.skipBlank
    rw [ho] at heat
    refine .loop_done ((follows_skipBlank hc).bind ((follows_isAnonymous hc.skipBlank).bind ?_))
    rw [decide_eq_false fun h => not_classDef_of_isCallable hcall h.1]
    refine (follows_offset hc.skipBlank).bind ?_
    rw [operator?, if_pos hcall]
    exact heat.bind (.pure heat.standsIn _)
  | case2 kind c start ho behind hdot ih =>
    have hreceiver := follows_nameStep_word hcall hc ho
      (follows_collect_dot (hc.skipBlank.skipWhile _) hcall hdot)
    exact hreceiver.loop_round hc (length_rest_receiver_lt hdot) (ih rfl hreceiver.standsIn)
  | case3 kind c start ho word behind hdot mark hmark =>
    obtain ⟨hpeek, hmark⟩ := Option.filter_eq_some_iff.1 hmark
    exact .loop_done (follows_nameStep_word hcall hc ho
      (follows_collect_mark (hc.skipBlank.skipWhile _) hcall hpeek hmark))
  | case4 kind c start ho word behind hdot hmark =>
    refine .loop_done (follows_nameStep_word hcall hc ho
      (follows_collect_stop (hc.skipBlank.skipWhile _) ?_ ?_))
    · rw [admits_eq_isWord hcall]
      exact (Text.IsRun.of_takeWhile Text.isWord start.rest).outside
    · rintro - a ha (rfl | hname)
      · exact hdot ha
      · exact Option.filter_eq_none_iff.1 hmark a ha hname

theorem follows_readPlain (hcall : kind.isCallable = false) (hc : c.StandsIn line) :
    Follows line (readName operators kind) c (kind.readPlain c).1 (kind.readPlain c).2 := by
  rw [Kind.readPlain_eq]
  by_cases hclass : kind = .classDef ∧ "<<".toList.isPrefixOf c.skipBlank.rest = true
  · rw [if_pos hclass]
    refine .loop_done ((follows_skipBlank hc).bind ((follows_isAnonymous hc.skipBlank).bind ?_))
    rw [decide_eq_true hclass]
    exact .pure hc.skipBlank _
  · have hcollect : Follows line (collect kind []) c.skipBlank
        (some (c.skipBlank.rest.takeWhile kind.admits)) (c.skipBlank.skipWhile kind.admits) := by
      refine Follows.collect hc.skipBlank ?_
      refine follows_collect_stop (hc.skipBlank.skipWhile _) ?_ ?_
      · exact (Text.IsRun.of_takeWhile kind.admits c.skipBlank.rest).outside
      · intro h
        simp [hcall] at h
    rw [if_neg hclass]
    exact .loop_done (follows_nameStep_collected hc hclass (fun h => by simp [hcall] at h) hcollect)

/-- **Names** are read off slices as they are read by a cursor. -/
theorem follows_readName (kind : Kind) (operators : List Text) (hc : c.StandsIn line) :
    Follows line (readName operators kind) c (kind.readName operators c).1
      (kind.readName operators c).2 := by
  unfold Kind.readName
  by_cases hcall : kind.isCallable = true
  · rw [if_pos hcall]
    exact follows_readCallable hcall hc
  · rw [if_neg hcall]
    exact follows_readPlain (Bool.eq_false_iff.2 hcall) hc

end

end Slicing

end Tagline
