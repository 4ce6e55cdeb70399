import Tagline.Proofs.BlockWords

/-!
# Walks that look at the stack

A walk that has the open scopes at hand takes the closer for a block word only while a scope is open.
Where none is open, the closer is a word like any other and is passed over, which leads to the same
place (bump_skipWhile_of_eat?) and leaves the same stack. So such a walk does what the marks of the
line say, which are found without the stack:

    lexicon.Walks stack c last e ↔
      last = stack.afterAll (lexicon.blockChanges c).1 ∧ e = (lexicon.blockChanges c).2  (walks_iff)
-/

namespace Tagline

/-- Passing over a word leads to where eating it leads. -/
theorem Cursor.bump_skipWhile_of_eat? {word : Text} {c d : Cursor} (hne : word ≠ [])
    (hword : ∀ a ∈ word, Text.isWord a = true) (hd : c.eat? word = some d) :
    c.bump.skipWhile Text.isWord = d := by
  obtain ⟨offset, rest⟩ := c
  obtain ⟨behind, tail⟩ := d
  obtain ⟨hrest, hends, hoffset⟩ := Cursor.eat?_eq_some.1 hd
  obtain ⟨a, w, rfl⟩ := List.exists_cons_of_ne_nil hne
  have hw : ∀ b ∈ w, Text.isWord b = true := fun b hb => hword b (List.mem_cons_of_mem a hb)
  dsimp only at hrest hends hoffset
  subst hrest hoffset
  show skipWhile Text.isWord ⟨offset + a.utf8Size, w ++ tail⟩ = _
  rw [Cursor.skipWhile_append hw (Text.not_isWord_of_endsToken hends), Text.byteSize_cons,
    Nat.add_assoc]

namespace Lexicon

/-! ## Definitions -/

/-- The piece at the cursor with the open scopes at hand: the scopes behind it and where it ends. The
closer is looked for only while a scope is open. -/
def walkStep (lexicon : Lexicon) (stack : ScopeStack) (c : Cursor) : Option (ScopeStack × Cursor) :=
  match c.rest with
  | [] => none
  | a :: _ =>
    if Text.isBlank a then some (stack, c.bump)
    else if a = '#' then some (stack, c.skipToEnd)
    else
      match c.eatAny? lexicon.openers with
      | some (_, d) => some (.anonymous :: stack, d)
      | none =>
        match if stack = [] then none else c.eat? lexicon.closer with
        | some d => some (stack.tail, d)
        | none =>
          if a = '"' then some (stack, c.bump.skipWhile (· != '"'))
          else some (stack, c.bump.skipWhile Text.isWord)

/-- A walk from piece to piece up to the end of the line. -/
inductive Walks (lexicon : Lexicon) : ScopeStack → Cursor → ScopeStack → Cursor → Prop
  | done {stack : ScopeStack} {c : Cursor} (hend : lexicon.walkStep stack c = none) :
    Walks lexicon stack c stack c
  | step {stack inner last : ScopeStack} {c d e : Cursor}
    (hpiece : lexicon.walkStep stack c = some (inner, d)) (hbehind : Walks lexicon inner d last e) :
    Walks lexicon stack c last e

/-- There is one walk at most. -/
theorem Walks.unique {lexicon : Lexicon} {stack last last' : ScopeStack} {c e e' : Cursor}
    (hwalk : lexicon.Walks stack c last e) (hwalk' : lexicon.Walks stack c last' e') :
    last = last' ∧ e = e' := by
  induction hwalk with
  | done hend =>
    cases hwalk' with
    | done => exact ⟨rfl, rfl⟩
    | step hpiece => simp [hend] at hpiece
  | step hpiece _ ih =>
    cases hwalk' with
    | done hend => simp [hpiece] at hend
    | step hpiece' hbehind =>
      rw [hpiece] at hpiece'
      cases hpiece'
      exact ih hbehind

section
variable {lexicon : Lexicon} (h : lexicon.Regular)

include h

/-! ## One piece -/

/-- The closer is a word, so passing over it leads to where eating it leads. -/
theorem pass_closer {c d : Cursor} {a : Char} {t : Text} (hrest : c.rest = a :: t)
    (hclose : c.eat? lexicon.closer = some d) : a ≠ '"' ∧ c.bump.skipWhile Text.isWord = d := by
  have hword := h.isWord_keyword _ closer_mem_keywords
  refine ⟨?_, Cursor.bump_skipWhile_of_eat? lexicon.closer_ne_nil hword hclose⟩
  rintro rfl
  obtain ⟨hcloser, -, -⟩ := Cursor.eat?_eq_some.1 hclose
  obtain ⟨b, w, hb⟩ := List.exists_cons_of_ne_nil lexicon.closer_ne_nil
  rw [hrest, hb, List.cons_append, List.cons.injEq] at hcloser
  have hbword := hword b (by simp [hb])
  rw [← hcloser.1] at hbword
  exact absurd hbword (by decide)

/-- **A piece** does the same to the stack, whether the stack is looked at or not. -/
theorem walkStep_eq (stack : ScopeStack) (c : Cursor) :
    lexicon.walkStep stack c =
      (lexicon.blockStep c).map fun (change, d) => (stack.afterAll change.toList, d) := by
  unfold walkStep blockStep
  cases hrest : c.rest with
  | nil => rfl
  | cons a t =>
    by_cases hblank : Text.isBlank a = true
    · simp only [if_pos hblank]
      rfl
    by_cases hcomment : a = '#'
    · simp only [if_neg hblank, if_pos hcomment]
      rfl
    simp only [if_neg hblank, if_neg hcomment]
    cases c.eatAny? lexicon.openers with
    | some found => rfl
    | none =>
      cases hclose : c.eat? lexicon.closer with
      | none =>
        by_cases hquote : a = '"'
        · simp only [ite_self, if_pos hquote]
          rfl
        · simp only [ite_self, if_neg hquote]
          rfl
      | some d =>
        cases stack with
        | cons scope stack => rfl
        | nil =>
          -- no scope is open, so the closer is passed over
          obtain ⟨hquote, hpass⟩ := pass_closer h hrest hclose
          simp only [if_true, if_neg hquote, hpass]
          rfl

/-! ## Walks -/

theorem walks_blockChanges (stack : ScopeStack) (c : Cursor) :
    lexicon.Walks stack c (stack.afterAll (lexicon.blockChanges c).1) (lexicon.blockChanges c).2 := by
  fun_induction lexicon.blockChanges c generalizing stack with
  | case1 c hend =>
    refine .done ?_
    rw [walkStep_eq h, hend]
    rfl
  | case2 c change d hpiece behind ih =>
    rw [ScopeStack.afterAll_append]
    refine .step ?_ (ih _)
    rw [walkStep_eq h, hpiece]
    rfl

/-- **A walk that looks at the stack** does what the marks of the line say. -/
theorem walks_iff {stack last : ScopeStack} {c e : Cursor} :
    lexicon.Walks stack c last e ↔
      last = stack.afterAll (lexicon.blockChanges c).1 ∧ e = (lexicon.blockChanges c).2 := by
  constructor
  · intro hwalk
    exact hwalk.unique (walks_blockChanges h stack c)
  · rintro ⟨rfl, rfl⟩
    exact walks_blockChanges h stack c

end

end Lexicon

end Tagline
