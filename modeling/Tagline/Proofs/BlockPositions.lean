import Tagline.Proofs.Walks

/-!
# Block words place by place

A place of a text counts if it lies before the first `#` or `"`, and is the first one or follows a
blank. The walk along a line jumps over words and strings, but it stops at all places that count, and
only there: it does what the block words at these places do, one after another, and it ends at the end
of the line

    lexicon.blockChanges c = (lexicon.blockWordsByPlace c.rest, c.skipToEnd)     (blockChanges_eq)

What stands behind the first `#` or `"` can be exchanged (blockWords_hidden), and a word right behind
a symbol can be left out (blockWords_glued).
-/

namespace Tagline

/-! ## Definitions -/

namespace Text

/-- Whether a character hides the rest of a line from the search for block words. -/
def isHiding (c : Char) : Bool := c == '#' || c == '"'

/-- What stands before the first `#` or `"`. -/
def shown (t : Text) : Text := t.takeWhile fun c => !isHiding c

/-- Whether a place is the first of a text or follows a blank. -/
def isFree (t : Text) (i : Nat) : Bool := i == 0 || t[i - 1]?.any isBlank

theorem isHiding_iff {a : Char} : isHiding a = true ↔ a = '#' ∨ a = '"' := by simp [isHiding]

end Text

namespace Lexicon

/-- What the block word at a place of a text does to the scopes, if the place counts and one stands
there as a token. -/
def blockWordAt? (lexicon : Lexicon) (t : Text) (i : Nat) : Option ScopeChange :=
  if i < t.shown.length ∧ t.isFree i = true then lexicon.blockWord? (t.drop i) else none

def blockWordsByPlace (lexicon : Lexicon) (t : Text) : List ScopeChange :=
  (List.range t.length).filterMap (lexicon.blockWordAt? t)

end Lexicon

/-! ## The end of the line -/

namespace Cursor

theorem skipToEnd_of_rest_eq_nil {c : Cursor} (hc : c.rest = []) : c.skipToEnd = c := by
  obtain ⟨offset, rest⟩ := c
  dsimp only at hc
  subst hc
  rfl

theorem skipToEnd_skipWhile (p : Char → Bool) (c : Cursor) :
    (c.skipWhile p).skipToEnd = c.skipToEnd := by
  have hsize : Text.byteSize (c.rest.takeWhile p) + Text.byteSize (c.rest.dropWhile p) =
      Text.byteSize c.rest := by
    rw [← Text.byteSize_append, List.takeWhile_append_dropWhile]
  simp only [skipToEnd, skipWhile, Cursor.mk.injEq, and_true]
  omega

theorem skipToEnd_bump (c : Cursor) : c.bump.skipToEnd = c.skipToEnd := by
  unfold bump
  split
  · rfl
  · next a r hr =>
    simp only [skipToEnd, hr, Text.byteSize_cons, Cursor.mk.injEq, and_true]
    omega

theorem skipToEnd_of_eat? {literal : Text} {c d : Cursor} (hd : c.eat? literal = some d) :
    d.skipToEnd = c.skipToEnd := by
  obtain ⟨hrest, -, hoffset⟩ := eat?_eq_some.1 hd
  simp only [skipToEnd, hrest, hoffset, Text.byteSize_append, Cursor.mk.injEq, and_true]
  omega

end Cursor

namespace Lexicon

section
variable {lexicon : Lexicon}

/-- A step of the walk stays in the line. -/
theorem skipToEnd_of_blockStep {c d : Cursor} {change : Option ScopeChange}
    (hs : lexicon.blockStep c = some (change, d)) : d.skipToEnd = c.skipToEnd := by
  unfold blockStep at hs
  split at hs
  · simp at hs
  · split at hs
    · simp only [Option.some.injEq, Prod.mk.injEq] at hs
      rw [← hs.2, Cursor.skipToEnd_bump]
    split at hs
    · simp only [Option.some.injEq, Prod.mk.injEq] at hs
      rw [← hs.2, Cursor.skipToEnd_of_rest_eq_nil rfl]
    split at hs
    · next w e he =>
      simp only [Option.some.injEq, Prod.mk.injEq] at hs
      rw [← hs.2, Cursor.skipToEnd_of_eat? (Cursor.eatAny?_mem he).2]
    split at hs
    · next e he =>
      simp only [Option.some.injEq, Prod.mk.injEq] at hs
      rw [← hs.2, Cursor.skipToEnd_of_eat? he]
    split at hs
    all_goals
      simp only [Option.some.injEq, Prod.mk.injEq] at hs
      rw [← hs.2, Cursor.skipToEnd_skipWhile, Cursor.skipToEnd_bump]

/-- **The walk ends at the end of the line.** -/
theorem blockChanges_snd (c : Cursor) : (lexicon.blockChanges c).2 = c.skipToEnd := by
  fun_induction lexicon.blockChanges c with
  | case1 c hs => exact (Cursor.skipToEnd_of_rest_eq_nil (rest_eq_nil_of_blockStep hs)).symm
  | case2 c change d hs behind ih => rw [ih, skipToEnd_of_blockStep hs]

/-! ## Places -/

theorem blockWordAt?_of_isHiding {a : Char} (ha : Text.isHiding a = true) (t : Text) (i : Nat) :
    lexicon.blockWordAt? (a :: t) i = none := by
  have hshown : Text.shown (a :: t) = [] := by simp [Text.shown, ha]
  rw [blockWordAt?, hshown, if_neg (by simp)]

theorem blockWordAt?_zero {a : Char} (ha : Text.isHiding a = false) (t : Text) :
    lexicon.blockWordAt? (a :: t) 0 = lexicon.blockWord? (a :: t) := by
  have hshown : Text.shown (a :: t) = a :: Text.shown t := by simp [Text.shown, ha]
  rw [blockWordAt?, hshown, if_pos ⟨Nat.succ_pos _, rfl⟩, List.drop_zero]

/-- The places behind the first character are those of the rest, of which the first is free only
behind a blank. -/
theorem blockWordAt?_succ {a : Char} (ha : Text.isHiding a = false) (t : Text) (i : Nat) :
    lexicon.blockWordAt? (a :: t) (i + 1) =
      if i = 0 ∧ Text.isBlank a = false then none else lexicon.blockWordAt? t i := by
  have hshown : Text.shown (a :: t) = a :: Text.shown t := by simp [Text.shown, ha]
  have hfree : Text.isFree (a :: t) (i + 1) = if i = 0 then Text.isBlank a else t.isFree i := by
    cases i with
    | zero => simp [Text.isFree]
    | succ i => simp [Text.isFree]
  unfold blockWordAt?
  simp only [hshown, hfree, List.length_cons, Nat.add_lt_add_iff_right, List.drop_succ_cons]
  by_cases hi : i = 0
  · subst hi
    cases hblank : Text.isBlank a with
    | false => simp
    | true => simp [Text.isFree]
  · simp [hi]

/-- What the block words do is said place by place. If no block word can stand at the first place,
that one is left out. -/
theorem blockWordsFrom_eq_filterMap (free : Bool) (t : Text) :
    lexicon.blockWordsFrom free t = (List.range t.length).filterMap fun i =>
      if i = 0 ∧ free = false then none else lexicon.blockWordAt? t i := by
  induction t generalizing free with
  | nil => rfl
  | cons a t ih =>
    cases ha : Text.isHiding a with
    | true =>
      rw [blockWordsFrom, if_pos (Text.isHiding_iff.1 ha), eq_comm, List.filterMap_eq_nil_iff]
      intro i _
      rw [blockWordAt?_of_isHiding ha, ite_self]
    | false =>
      have hmark : ¬ (a = '#' ∨ a = '"') := fun h => by simp [Text.isHiding_iff.2 h] at ha
      rw [blockWordsFrom, if_neg hmark, ih, List.length_cons, List.range_succ_eq_map,
        List.filterMap_cons, List.filterMap_map, blockWordAt?_zero ha]
      have hbehind : ((fun i => if i = 0 ∧ free = false then none
            else lexicon.blockWordAt? (a :: t) i) ∘ Nat.succ) =
          fun i => if i = 0 ∧ Text.isBlank a = false then none else lexicon.blockWordAt? t i := by
        funext i
        simp only [Function.comp_apply, Nat.succ_eq_add_one, Nat.add_one_ne_zero, false_and, if_false]
        exact blockWordAt?_succ ha t i
      rw [hbehind]
      cases free with
      | false => simp
      | true =>
        simp only [if_true, Bool.true_eq_false, and_false, if_false]
        cases lexicon.blockWord? (a :: t) <;> rfl

/-- **Block words by place.** -/
theorem blockWords_eq_blockWordsByPlace (t : Text) :
    lexicon.blockWords t = lexicon.blockWordsByPlace t := by
  rw [blockWords, blockWordsFrom_eq_filterMap]
  simp only [Bool.true_eq_false, and_false, if_false]
  rfl

/-- **The walk** finds the block words of all places that count, and ends at the end of the line. -/
theorem blockChanges_eq (h : lexicon.Regular) (c : Cursor) :
    lexicon.blockChanges c = (lexicon.blockWordsByPlace c.rest, c.skipToEnd) := by
  rw [← blockWords_eq_blockWordsByPlace, ← blockChanges_fst h, ← blockChanges_snd]

/-- A place right behind a character that is no blank does not count. -/
theorem blockWordAt?_of_not_isBlank {x : Char} (hx : Text.isBlank x = false) (before behind : Text) :
    lexicon.blockWordAt? (before ++ x :: behind) (before.length + 1) = none := by
  have hfree : Text.isFree (before ++ x :: behind) (before.length + 1) = false := by
    simp [Text.isFree, hx]
  rw [blockWordAt?, hfree, if_neg (by simp)]

/-! ## What does not matter -/

section
variable (h : lexicon.Regular) {x : Char} (hx : Text.isWord x = false)

include hx

/-- Whether a word stands in front of a symbol does not depend on what is behind the symbol. -/
theorem isSome_dropToken?_append_cons {w : Text} (hw : ∀ a ∈ w, Text.isWord a = true)
    {u r s : Text} (hr : (Text.dropToken? w (u ++ x :: r)).isSome = true) :
    (Text.dropToken? w (u ++ x :: s)).isSome = true := by
  obtain ⟨t, ht⟩ := Option.isSome_iff_exists.1 hr
  obtain ⟨hsplit, hend⟩ := Text.dropToken?_eq_some.1 ht
  rcases List.append_eq_append_iff.1 hsplit with ⟨v, rfl, hv⟩ | ⟨v, rfl, rfl⟩
  · cases v with
    | nil =>
      rw [List.nil_append] at hv
      rw [← hv] at hend
      have hend' : Text.endsToken (x :: s) = true := hend
      rw [Text.dropToken?_eq_some.2 ⟨by rw [List.append_nil], hend'⟩]
      rfl
    | cons b v =>
      -- the word would go on with the symbol
      rw [List.cons_append, List.cons.injEq] at hv
      have hb := hw b (by simp)
      rw [← hv.1, hx] at hb
      simp at hb
  · have hend' : Text.endsToken (v ++ x :: s) = true := by
      cases v with
      | nil => exact hend
      | cons b v => exact hend
    rw [List.append_assoc, Text.dropToken?_eq_some.2 ⟨rfl, hend'⟩]
    rfl

include h

theorem blockWord?_append_cons (u r s : Text) :
    lexicon.blockWord? (u ++ x :: r) = lexicon.blockWord? (u ++ x :: s) := by
  have hsame : ∀ w ∈ lexicon.keywords, (Text.dropToken? w (u ++ x :: r)).isSome =
      (Text.dropToken? w (u ++ x :: s)).isSome := by
    intro w hw
    have hword := h.isWord_keyword w hw
    rw [Bool.eq_iff_iff]
    exact ⟨isSome_dropToken?_append_cons hx hword, isSome_dropToken?_append_cons hx hword⟩
  have hany : (lexicon.openers.any fun w => (Text.dropToken? w (u ++ x :: r)).isSome) =
      lexicon.openers.any fun w => (Text.dropToken? w (u ++ x :: s)).isSome := by
    rw [Bool.eq_iff_iff, List.any_eq_true, List.any_eq_true]
    constructor
    · rintro ⟨w, hw, hsome⟩
      exact ⟨w, hw, hsame w (opener_mem_keywords hw) ▸ hsome⟩
    · rintro ⟨w, hw, hsome⟩
      exact ⟨w, hw, (hsame w (opener_mem_keywords hw)).symm ▸ hsome⟩
  unfold blockWord?
  rw [hany, hsame _ closer_mem_keywords]

/-- Two texts that agree up to a symbol have the same block words if they have the same ones behind
it. -/
theorem blockWordsFrom_append_cons {r s : Text}
    (hrs : Text.isHiding x = false →
      lexicon.blockWordsFrom (Text.isBlank x) r = lexicon.blockWordsFrom (Text.isBlank x) s)
    (free : Bool) (before : Text) :
    lexicon.blockWordsFrom free (before ++ x :: r) =
      lexicon.blockWordsFrom free (before ++ x :: s) := by
  induction before generalizing free with
  | nil =>
    have hword := blockWord?_append_cons h hx [] r s
    simp only [List.nil_append] at hword ⊢
    rw [blockWordsFrom, blockWordsFrom, hword]
    split
    · rfl
    · next hmark => rw [hrs (by simpa [Text.isHiding] using hmark)]
  | cons a before ih =>
    have hword := blockWord?_append_cons h hx (a :: before) r s
    simp only [List.cons_append] at hword ⊢
    rw [blockWordsFrom, blockWordsFrom, hword, ih]

end

/-- **What is hidden does not matter.** -/
theorem blockWords_hidden (h : lexicon.Regular) {mark : Char} (hmark : Text.isHiding mark = true)
    (before hidden other : Text) :
    lexicon.blockWords (before ++ mark :: hidden) = lexicon.blockWords (before ++ mark :: other) := by
  have hword : Text.isWord mark = false := by
    rcases Text.isHiding_iff.1 hmark with rfl | rfl
    · decide
    · decide
  apply blockWordsFrom_append_cons h hword
  intro hshown
  simp [hmark] at hshown

/-- **A word right behind a symbol does not matter.** -/
theorem blockWords_glued (h : lexicon.Regular) {x : Char} (hword : Text.isWord x = false)
    (hblank : Text.isBlank x = false) {w : Text} (hw : ∀ a ∈ w, Text.isWord a = true)
    (before behind : Text) :
    lexicon.blockWords (before ++ x :: (w ++ behind)) = lexicon.blockWords (before ++ x :: behind) := by
  apply blockWordsFrom_append_cons h hword
  intro _
  rw [hblank, blockWordsFrom_append_of_isWord hw]

end

/-! ## Top theorem -/

/-- **The walk along a line, place by place.** With any scopes open, the walk from a cursor ends at the
end of the line, and does what the block words at the places that count do, from left to right. Behind
the first `#` or `"`, and right behind a character that is no blank, no place counts: what stands
there can be exchanged or left out. -/
theorem walk_by_place (stack : ScopeStack) (c : Cursor) :
    julia.blockChanges c = (julia.blockWordsByPlace c.rest, c.skipToEnd) ∧
      (∀ last e, julia.Walks stack c last e ↔
        last = stack.afterAll (julia.blockWordsByPlace c.rest) ∧ e = c.skipToEnd) ∧
      (∀ before mark hidden other, Text.isHiding mark = true →
        julia.blockWordsByPlace (before ++ mark :: hidden) =
          julia.blockWordsByPlace (before ++ mark :: other)) ∧
      (∀ before x behind, Text.isBlank x = false →
        julia.blockWordAt? (before ++ x :: behind) (before.length + 1) = none ∧
          ∀ w, Text.isWord x = false → (∀ a ∈ w, Text.isWord a = true) →
            julia.blockWordsByPlace (before ++ x :: (w ++ behind)) =
              julia.blockWordsByPlace (before ++ x :: behind)) := by
  have h := julia_regular
  refine ⟨blockChanges_eq h c, ?_, ?_, ?_⟩
  · intro last e
    rw [walks_iff h, blockChanges_eq h]
  · intro before mark hidden other hmark
    rw [← blockWords_eq_blockWordsByPlace, ← blockWords_eq_blockWordsByPlace]
    exact blockWords_hidden h hmark before hidden other
  · intro before x behind hblank
    refine ⟨blockWordAt?_of_not_isBlank hblank before behind, ?_⟩
    intro w hword hw
    rw [← blockWords_eq_blockWordsByPlace, ← blockWords_eq_blockWordsByPlace]
    exact blockWords_glued h hword hblank hw before behind

/-- The second `end` follows a semicolon, and the third stands behind a quote. -/
example : julia.blockWordsByPlace "do x end;end \"s\" end".toList = [.enter .anonymous] := by
  decide +kernel

end Lexicon

end Tagline
