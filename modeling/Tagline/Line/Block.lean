import Tagline.Lexicon
import Tagline.Scope
import Tagline.Text.Cursor

/-!
# Blocks inside a line

Behind the words that start a line, the words that open and close blocks are found by walking from
piece to piece: a blank, a comment, such a word, a string, or another character with the word behind
it. A string is walked up to its closing quote, which then opens another one, so nothing behind the
first quote of a line counts.
-/

namespace Tagline.Lexicon

/-- The piece at the cursor: what it does to the scopes and where it ends. There is none at the end of
the line. -/
def blockStep (lexicon : Lexicon) (c : Cursor) : Option (Option ScopeChange × Cursor) :=
  match c.rest with
  | [] => none
  | a :: _ =>
    if Text.isBlank a then some (none, c.bump)
    else if a = '#' then some (none, c.skipToEnd)
    else
      match c.eatAny? lexicon.openers with
      | some (_, d) => some (some (.enter .anonymous), d)
      | none =>
        match c.eat? lexicon.closer with
        | some d => some (some .leave, d)
        | none =>
          if a = '"' then some (none, c.bump.skipWhile (· != '"'))
          else some (none, c.bump.skipWhile Text.isWord)

theorem length_rest_blockStep_lt {lexicon : Lexicon} {c d : Cursor} {change : Option ScopeChange}
    (h : lexicon.blockStep c = some (change, d)) : d.rest.length < c.rest.length := by
  unfold blockStep at h
  split at h
  · simp at h
  · next a r hr =>
    have hb : c.bump.rest.length < c.rest.length := Cursor.length_rest_bump_lt (by simp [hr])
    split at h
    · simp_all
    split at h
    · simp only [Option.some.injEq, Prod.mk.injEq] at h
      obtain ⟨-, rfl⟩ := h
      simp [Cursor.skipToEnd, hr]
    split at h
    · next w e he =>
      simp only [Option.some.injEq, Prod.mk.injEq] at h
      obtain ⟨-, rfl⟩ := h
      obtain ⟨hw, he⟩ := Cursor.eatAny?_mem he
      exact Cursor.length_rest_eat?_lt (lexicon.openers_ne_nil w hw) he
    split at h
    · next e he =>
      simp only [Option.some.injEq, Prod.mk.injEq] at h
      obtain ⟨-, rfl⟩ := h
      exact Cursor.length_rest_eat?_lt lexicon.closer_ne_nil he
    split at h
    all_goals
      simp only [Option.some.injEq, Prod.mk.injEq] at h
      obtain ⟨-, rfl⟩ := h
      exact Nat.lt_of_le_of_lt (Cursor.length_rest_skipWhile_le _ _) hb

/-- What the rest of a line does to the scopes, and the cursor behind it. -/
def blockChanges (lexicon : Lexicon) (c : Cursor) : List ScopeChange × Cursor :=
  match _h : lexicon.blockStep c with
  | none => ([], c)
  | some (change, d) =>
    let behind := lexicon.blockChanges d
    (change.toList ++ behind.1, behind.2)
termination_by c.rest.length
decreasing_by exact length_rest_blockStep_lt _h

end Tagline.Lexicon
