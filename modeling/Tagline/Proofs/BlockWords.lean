import Tagline.Line.Block
import Tagline.Proofs.Tokens

/-!
# Block words by position

The walk along a line jumps over words, strings and comments. What it finds can be said position by
position: a block word counts if it is a token at the start of the text or right behind a blank, and
lies before the first `#` or `"`. Each step of the walk finds what stands between its two ends
(blockWords_of_blockStep), so

    (blockChanges c).1 = blockWords c.rest                         (blockChanges_fst)
-/

namespace Tagline.Lexicon

/-! ## Definitions -/

/-- What the block word at the start of a text does to the scopes, if one stands there as a token. -/
def blockWord? (lexicon : Lexicon) (t : Text) : Option ScopeChange :=
  if lexicon.openers.any fun w => (Text.dropToken? w t).isSome then some (.enter .anonymous)
  else if (Text.dropToken? lexicon.closer t).isSome then some .leave
  else none

/-- What the block words of a text do, one position after another. `free` says whether a block word
can stand at the first one. -/
def blockWordsFrom (lexicon : Lexicon) : Bool → Text → List ScopeChange
  | _, [] => []
  | free, a :: t =>
    if a = '#' ∨ a = '"' then []
    else
      (if free then lexicon.blockWord? (a :: t) else none).toList ++
        lexicon.blockWordsFrom (Text.isBlank a) t

def blockWords (lexicon : Lexicon) (t : Text) : List ScopeChange := lexicon.blockWordsFrom true t

variable {lexicon : Lexicon}

/-! ## Inside a word, and behind a mark -/

theorem blockWordsFrom_cons_of_isWord {a : Char} (ha : Text.isWord a = true) (free : Bool) (t : Text) :
    lexicon.blockWordsFrom free (a :: t) =
      (if free then lexicon.blockWord? (a :: t) else none).toList ++ lexicon.blockWordsFrom false t := by
  have hmark : ¬ (a = '#' ∨ a = '"') := by
    rintro (rfl | rfl) <;> exact absurd ha (by decide)
  rw [blockWordsFrom, if_neg hmark, Text.not_isBlank_of_isWord ha]

/-- No block word starts inside a word. -/
theorem blockWordsFrom_append_of_isWord {w : Text} (hw : ∀ c ∈ w, Text.isWord c = true) (t : Text) :
    lexicon.blockWordsFrom false (w ++ t) = lexicon.blockWordsFrom false t := by
  induction w with
  | nil => rfl
  | cons a w ih =>
    have ha := hw a (by simp)
    rw [List.cons_append, blockWordsFrom_cons_of_isWord ha, ih fun c hc => hw c (by simp [hc])]
    simp

theorem isWord_head?_dropWhile (t : Text) :
    ∀ a ∈ (t.dropWhile Text.isWord).head?, Text.isWord a = false := by
  intro a ha
  have := List.head?_dropWhile_not Text.isWord t
  rw [Option.mem_def.1 ha] at this
  simpa using this

/-- Nothing behind a comment sign or a quote counts. -/
theorem blockWords_cons_of_mark {a : Char} (ha : a = '#' ∨ a = '"') (t : Text) :
    lexicon.blockWords (a :: t) = [] := by
  rw [blockWords, blockWordsFrom, if_pos ha]

theorem blockWords_dropWhile_quote (t : Text) : lexicon.blockWords (t.dropWhile (· != '"')) = [] := by
  have hhead := List.head?_dropWhile_not (· != '"') t
  cases hd : t.dropWhile (· != '"') with
  | nil => rfl
  | cons a r =>
    rw [hd] at hhead
    exact blockWords_cons_of_mark (Or.inr (by simpa using hhead)) r

/-! ## Block words at a cursor -/

theorem blockWord?_of_eatAny? {c d : Cursor} {w : Text} (he : c.eatAny? lexicon.openers = some (w, d)) :
    lexicon.blockWord? c.rest = some (.enter .anonymous) := by
  obtain ⟨hw, he⟩ := Cursor.eatAny?_mem he
  obtain ⟨hr, hend, -⟩ := Cursor.eat?_eq_some.1 he
  have hopen : (lexicon.openers.any fun w => (Text.dropToken? w c.rest).isSome) = true := by
    rw [List.any_eq_true]
    refine ⟨w, hw, ?_⟩
    rw [Text.dropToken?_eq_some.2 ⟨hr, hend⟩]
    rfl
  unfold blockWord?
  rw [if_pos hopen]

theorem openers_any_eq_false {c : Cursor} (he : c.eatAny? lexicon.openers = none) :
    ¬ (lexicon.openers.any fun w => (Text.dropToken? w c.rest).isSome) = true := by
  rw [List.any_eq_true]
  rintro ⟨w, hw, hsome⟩
  simp [Cursor.eatAny?_eq_none_iff.1 he w hw] at hsome

theorem blockWord?_of_eat? {c d : Cursor} (ho : c.eatAny? lexicon.openers = none)
    (he : c.eat? lexicon.closer = some d) : lexicon.blockWord? c.rest = some .leave := by
  obtain ⟨hr, hend, -⟩ := Cursor.eat?_eq_some.1 he
  unfold blockWord?
  rw [if_neg (openers_any_eq_false ho), Text.dropToken?_eq_some.2 ⟨hr, hend⟩]
  simp

theorem blockWord?_eq_none_of_eat? {c : Cursor} (ho : c.eatAny? lexicon.openers = none)
    (he : c.eat? lexicon.closer = none) : lexicon.blockWord? c.rest = none := by
  unfold blockWord?
  rw [if_neg (openers_any_eq_false ho), Cursor.eat?_eq_none_iff.1 he]
  simp

/-- The walk goes on up to the end of the line. -/
theorem rest_eq_nil_of_blockStep {c : Cursor} (hs : lexicon.blockStep c = none) : c.rest = [] := by
  unfold blockStep at hs
  split at hs
  · next hr => exact hr
  · repeat' split at hs
    all_goals simp at hs

section
variable (h : lexicon.Regular)

include h

/-! ## Positions without a block word -/

theorem blockWord?_eq_none {t : Text} (ht : ∀ a ∈ t.head?, Text.isWord a = false) :
    lexicon.blockWord? t = none := by
  have hopen : ¬ (lexicon.openers.any fun w => (Text.dropToken? w t).isSome) = true := by
    simp only [List.any_eq_true, not_exists, not_and]
    intro w hw
    rw [dropToken?_eq_none_of_head h (opener_mem_keywords hw) ht]
    simp
  unfold blockWord?
  rw [if_neg hopen, dropToken?_eq_none_of_head h closer_mem_keywords ht]
  simp

/-- Where no word starts, it does not matter whether a block word could stand there. -/
theorem blockWordsFrom_eq_blockWords {t : Text} (ht : ∀ a ∈ t.head?, Text.isWord a = false)
    (free : Bool) : lexicon.blockWordsFrom free t = lexicon.blockWords t := by
  cases t with
  | nil => cases free <;> rfl
  | cons a t =>
    have hnone := blockWord?_eq_none h ht
    cases free <;> simp [blockWords, blockWordsFrom, hnone]

theorem blockWordsFrom_dropWhile (t : Text) :
    lexicon.blockWords (t.dropWhile Text.isWord) = lexicon.blockWordsFrom false t := by
  have hall : ∀ c ∈ t.takeWhile Text.isWord, Text.isWord c = true := by
    intro c hc
    exact List.all_eq_true.1 List.all_takeWhile c hc
  calc lexicon.blockWords (t.dropWhile Text.isWord)
      = lexicon.blockWordsFrom false (t.dropWhile Text.isWord) :=
        (blockWordsFrom_eq_blockWords h (isWord_head?_dropWhile t) false).symm
    _ = lexicon.blockWordsFrom false (t.takeWhile Text.isWord ++ t.dropWhile Text.isWord) :=
        (blockWordsFrom_append_of_isWord hall _).symm
    _ = lexicon.blockWordsFrom false t := by rw [List.takeWhile_append_dropWhile]

/-- Behind a token the next block word can stand. -/
theorem blockWords_append_of_token {w t : Text} {change : ScopeChange} (hw : w ∈ lexicon.keywords)
    (hchange : lexicon.blockWord? (w ++ t) = some change) (ht : Text.endsToken t = true) :
    lexicon.blockWords (w ++ t) = change :: lexicon.blockWords t := by
  obtain ⟨a, v, rfl⟩ := List.exists_cons_of_ne_nil (h.keyword_ne_nil w hw)
  have hword := h.isWord_keyword _ hw
  have hbehind : lexicon.blockWordsFrom false (v ++ t) = lexicon.blockWords t := by
    rw [blockWordsFrom_append_of_isWord fun c hc => hword c (List.mem_cons_of_mem _ hc),
      blockWordsFrom_eq_blockWords h (Text.not_isWord_of_endsToken ht)]
  rw [List.cons_append] at hchange ⊢
  rw [blockWords, blockWordsFrom_cons_of_isWord (hword a (by simp)), if_pos rfl, hchange, hbehind]
  rfl

theorem blockWords_cons_of_isBlank {a : Char} (ha : Text.isBlank a = true) (t : Text) :
    lexicon.blockWords (a :: t) = lexicon.blockWords t := by
  have hword := Text.not_isWord_of_isBlank ha
  have hmark : ¬ (a = '#' ∨ a = '"') := by
    rintro (rfl | rfl) <;> exact absurd ha (by decide)
  rw [blockWords, blockWordsFrom, if_neg hmark, if_pos rfl, ha, blockWord?_eq_none h (by simp [hword])]
  rfl

/-- Behind any other character the word that follows is passed over. -/
theorem blockWords_cons_of_other {a : Char} {t : Text} (hmark : ¬ (a = '#' ∨ a = '"'))
    (hblank : ¬ Text.isBlank a = true) (hnone : lexicon.blockWord? (a :: t) = none) :
    lexicon.blockWords (a :: t) = lexicon.blockWords (t.dropWhile Text.isWord) := by
  rw [blockWords, blockWordsFrom, if_neg hmark, if_pos rfl, hnone, blockWordsFrom_dropWhile h]
  simp [hblank]

/-- The closer alone closes a scope. -/
theorem blockWords_closer : lexicon.blockWords lexicon.closer = [.leave] := by
  have hopen : ¬ (lexicon.openers.any fun w => (Text.dropToken? w (lexicon.closer ++ [])).isSome) = true := by
    rw [List.any_eq_true]
    rintro ⟨w, hw, hsome⟩
    have hne : w ≠ lexicon.closer := by
      rintro rfl
      exact h.closer_only_closes (List.mem_append_right _ hw)
    rw [dropToken?_keyword_eq_none h (opener_mem_keywords hw) closer_mem_keywords rfl hne] at hsome
    simp at hsome
  have hchange : lexicon.blockWord? (lexicon.closer ++ []) = some .leave := by
    unfold blockWord?
    rw [if_neg hopen, Text.dropToken?_eq_some.2 ⟨rfl, rfl⟩]
    simp
  rw [← List.append_nil lexicon.closer, blockWords_append_of_token h closer_mem_keywords hchange rfl]
  rfl

/-! ## The walk -/

/-- **A step of the walk** finds what the block words between its two ends do. -/
theorem blockWords_of_blockStep {c d : Cursor} {change : Option ScopeChange}
    (hs : lexicon.blockStep c = some (change, d)) :
    lexicon.blockWords c.rest = change.toList ++ lexicon.blockWords d.rest := by
  unfold blockStep at hs
  split at hs
  · simp at hs
  · next a r hr =>
    have hbump : c.bump.rest = r := by simp [Cursor.bump, hr]
    split at hs
    · next hblank =>
      simp only [Option.some.injEq, Prod.mk.injEq] at hs
      obtain ⟨rfl, rfl⟩ := hs
      rw [hr, hbump, blockWords_cons_of_isBlank h hblank]
      rfl
    · next hblank =>
      split at hs
      · next hcomment =>
        simp only [Option.some.injEq, Prod.mk.injEq] at hs
        obtain ⟨rfl, rfl⟩ := hs
        rw [hr, blockWords_cons_of_mark (Or.inl hcomment)]
        rfl
      · next hcomment =>
        split at hs
        · next w e he =>
          simp only [Option.some.injEq, Prod.mk.injEq] at hs
          obtain ⟨rfl, rfl⟩ := hs
          have hchange := blockWord?_of_eatAny? he
          obtain ⟨hw, he⟩ := Cursor.eatAny?_mem he
          obtain ⟨hrest, hend, -⟩ := Cursor.eat?_eq_some.1 he
          rw [hrest] at hchange ⊢
          exact blockWords_append_of_token h (opener_mem_keywords hw) hchange hend
        · next ho =>
          split at hs
          · next e he =>
            simp only [Option.some.injEq, Prod.mk.injEq] at hs
            obtain ⟨rfl, rfl⟩ := hs
            have hchange := blockWord?_of_eat? ho he
            obtain ⟨hrest, hend, -⟩ := Cursor.eat?_eq_some.1 he
            rw [hrest] at hchange ⊢
            exact blockWords_append_of_token h closer_mem_keywords hchange hend
          · next he =>
            have hnone := blockWord?_eq_none_of_eat? ho he
            split at hs
            · next hquote =>
              simp only [Option.some.injEq, Prod.mk.injEq] at hs
              obtain ⟨rfl, rfl⟩ := hs
              rw [hr, blockWords_cons_of_mark (Or.inr hquote)]
              -- the closing quote, if there is one, opens another string
              have hrest : (c.bump.skipWhile (· != '"')).rest = r.dropWhile (· != '"') := by
                rw [Cursor.skipWhile, hbump]
              rw [hrest, blockWords_dropWhile_quote]
              rfl
            · next hquote =>
              simp only [Option.some.injEq, Prod.mk.injEq] at hs
              obtain ⟨rfl, rfl⟩ := hs
              rw [hr] at hnone ⊢
              rw [blockWords_cons_of_other h (by simp [hcomment, hquote]) hblank hnone, Cursor.skipWhile,
                hbump]
              rfl

/-- **The walk finds the block words of the text.** -/
theorem blockChanges_fst (c : Cursor) : (lexicon.blockChanges c).1 = lexicon.blockWords c.rest := by
  fun_induction lexicon.blockChanges c with
  | case1 c hs =>
    rw [rest_eq_nil_of_blockStep hs]
    rfl
  | case2 c change d hs behind ih =>
    rw [blockWords_of_blockStep h hs, ← ih]

end

end Tagline.Lexicon
