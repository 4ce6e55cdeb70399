import Tagline.Lexicon
import Tagline.Text.Cursor

/-!
# Tokens

A literal is solid if it holds nothing that ends a token. Two solid literals that stand at the same
place as tokens are the same:

    dropToken? v t = some r → dropToken? w t = some s → v = w      (eq_of_dropToken?)

The words of a lexicon are regular if the keywords consist of word characters, the symbols do not
start with one, and no word has two roles where a line starts. Those of Julia are (julia_regular).
-/

namespace Tagline

namespace Text

/-- Whether no character of a literal ends a token. -/
def isSolid (literal : Text) : Bool := literal.all fun c => !(isBlank c || c == '(')

/-! ## Lemmas -/

theorem not_isBlank_of_isWord {c : Char} (h : isWord c = true) : isBlank c = false := by
  cases hb : isBlank c with
  | false => rfl
  | true => exact absurd h (by simp [not_isWord_of_isBlank hb])

theorem isSolid_cons {c : Char} {w : Text} :
    isSolid (c :: w) = true ↔ isBlank c = false ∧ c ≠ '(' ∧ isSolid w = true := by
  simp only [isSolid, List.all_cons, Bool.and_eq_true, Bool.not_eq_true', Bool.or_eq_false_iff,
    beq_eq_false_iff_ne, ne_eq, and_assoc]

theorem isSolid_of_isWord {w : Text} (h : ∀ c ∈ w, isWord c = true) : isSolid w = true := by
  unfold isSolid
  rw [List.all_eq_true]
  intro c hc
  have hparen : c ≠ '(' := by
    rintro rfl
    exact absurd (h _ hc) (by decide)
  simp [not_isBlank_of_isWord (h c hc), hparen]

/-- What stands behind a token starts with nothing solid. -/
theorem eq_nil_of_endsToken {w t : Text} (hw : isSolid w = true) (h : endsToken (w ++ t) = true) :
    w = [] := by
  cases w with
  | nil => rfl
  | cons c w =>
    obtain ⟨hb, hp, -⟩ := isSolid_cons.1 hw
    simp [endsToken, hb, hp] at h

/-- A token ends before a blank. -/
theorem endsToken_of_isBlank {t : Text} (ht : t.head?.any isBlank = true) : endsToken t = true := by
  cases t with
  | nil => rfl
  | cons a t =>
    have ha : isBlank a = true := by simpa using ht
    rw [endsToken, ha, Bool.true_or]

theorem isSolid_append {v w : Text} :
    isSolid (v ++ w) = true ↔ isSolid v = true ∧ isSolid w = true := by
  unfold isSolid
  rw [List.all_append, Bool.and_eq_true]

/-- No word starts where a token ends. -/
theorem not_isWord_of_endsToken {t : Text} (h : endsToken t = true) :
    ∀ a ∈ t.head?, isWord a = false := by
  intro a ha
  cases t with
  | nil => simp at ha
  | cons b t =>
    obtain rfl : b = a := by simpa using ha
    simp only [endsToken, Bool.or_eq_true, beq_iff_eq] at h
    rcases h with hb | rfl
    · exact not_isWord_of_isBlank hb
    · decide

/-- A text that starts with a word. -/
theorem isWord_head?_append {w t : Text} (hne : w ≠ []) (hw : ∀ a ∈ w, isWord a = true) :
    ∀ a ∈ (w ++ t).head?, isWord a = true := by
  obtain ⟨first, others, rfl⟩ := List.exists_cons_of_ne_nil hne
  intro a ha
  obtain rfl : first = a := by simpa using ha
  exact hw first (by simp)

section
variable {p : Char → Bool} {u t : Text}

theorem takeWhile_append_of_head (hu : ∀ a ∈ u, p a = true) (ht : ∀ a ∈ t.head?, p a = false) :
    (u ++ t).takeWhile p = u := by
  rw [List.takeWhile_append_of_pos hu]
  cases t with
  | nil => simp
  | cons a t => simp [ht a rfl]

theorem dropWhile_append_of_head (hu : ∀ a ∈ u, p a = true) (ht : ∀ a ∈ t.head?, p a = false) :
    (u ++ t).dropWhile p = t := by
  rw [List.dropWhile_append_of_pos hu]
  cases t with
  | nil => rfl
  | cons a t => simp [ht a rfl]

end

/-- **Tokens are unique.** -/
theorem eq_of_dropToken? {v w t r s : Text} (hv : isSolid v = true) (hw : isSolid w = true)
    (hr : dropToken? v t = some r) (hs : dropToken? w t = some s) : v = w := by
  obtain ⟨htr, hendr⟩ := dropToken?_eq_some.1 hr
  obtain ⟨hts, hends⟩ := dropToken?_eq_some.1 hs
  rw [htr] at hts
  -- the longer of the two literals would go on with a character that ends the shorter one
  rcases List.append_eq_append_iff.1 hts with ⟨a, rfl, rfl⟩ | ⟨a, rfl, rfl⟩
  · rw [eq_nil_of_endsToken (isSolid_append.1 hw).2 hendr, List.append_nil]
  · rw [eq_nil_of_endsToken (isSolid_append.1 hv).2 hends, List.append_nil]

end Text

namespace Cursor

theorem eat?_eq_none_iff {literal : Text} {c : Cursor} :
    c.eat? literal = none ↔ Text.dropToken? literal c.rest = none := by
  unfold eat?
  rw [Option.map_eq_none_iff]

/-- The cursor behind a run of characters of a class. -/
theorem skipWhile_append {p : Char → Bool} {u t : Text} (hu : ∀ a ∈ u, p a = true)
    (ht : ∀ a ∈ t.head?, p a = false) (offset : Nat) :
    skipWhile p ⟨offset, u ++ t⟩ = ⟨offset + Text.byteSize u, t⟩ := by
  simp only [skipWhile, Text.takeWhile_append_of_head hu ht, Text.dropWhile_append_of_head hu ht]

theorem eatAny?_eq_none_iff {literals : List Text} {c : Cursor} :
    c.eatAny? literals = none ↔ ∀ w ∈ literals, Text.dropToken? w c.rest = none := by
  unfold eatAny?
  rw [List.findSome?_eq_none_iff]
  simp only [Option.map_eq_none_iff, eat?_eq_none_iff]

/-- A literal that stands at a cursor as a token is the one that is found. -/
theorem eatAny?_of_token {literals : List Text} (hsolid : ∀ w ∈ literals, Text.isSolid w = true)
    {w t : Text} {c : Cursor} (hw : w ∈ literals) (hc : c.rest = w ++ t)
    (ht : Text.endsToken t = true) :
    c.eatAny? literals = some (w, ⟨c.offset + Text.byteSize w, t⟩) := by
  have hdrop : Text.dropToken? w c.rest = some t := Text.dropToken?_eq_some.2 ⟨hc, ht⟩
  cases hfound : c.eatAny? literals with
  | none =>
    rw [eatAny?_eq_none_iff.1 hfound w hw] at hdrop
    simp at hdrop
  | some found =>
    obtain ⟨v, d⟩ := found
    obtain ⟨hv, heat⟩ := eatAny?_mem hfound
    obtain ⟨hr, hend, hoffset⟩ := eat?_eq_some.1 heat
    have hvw : v = w :=
      Text.eq_of_dropToken? (hsolid v hv) (hsolid w hw) (Text.dropToken?_eq_some.2 ⟨hr, hend⟩) hdrop
    subst hvw
    rw [hc] at hr
    rw [List.append_cancel_left hr, ← hoffset]

end Cursor

namespace Lexicon

/-- The words of a lexicon that are words of the language. -/
def keywords (lexicon : Lexicon) : List Text :=
  lexicon.controls ++ lexicon.definitions.map (·.1) ++ lexicon.openers ++ [lexicon.closer]

/-- The words of a lexicon that start with a symbol. -/
def symbols (lexicon : Lexicon) : List Text :=
  lexicon.commentStart :: lexicon.commentEnd :: lexicon.operators

/-- What the scan of a line relies on. -/
structure Regular (lexicon : Lexicon) : Prop where
  keyword_ne_nil : ∀ w ∈ lexicon.keywords, w ≠ []
  isWord_keyword : ∀ w ∈ lexicon.keywords, ∀ c ∈ w, Text.isWord c = true
  isSolid_symbol : ∀ w ∈ lexicon.symbols, Text.isSolid w = true
  symbol_head : ∀ w ∈ lexicon.symbols, w.head?.any (fun c => !Text.isWord c) = true
  /-- A word starts definitions of one kind. -/
  definition_kind : ∀ p ∈ lexicon.definitions, ∀ q ∈ lexicon.definitions, p.1 = q.1 → p.2 = q.2
  /-- A control word starts no definition. -/
  control_not_definition : ∀ w ∈ lexicon.controls, w ∉ lexicon.definitions.map (·.1)
  /-- The word that closes a scope does nothing else. -/
  closer_only_closes :
    lexicon.closer ∉ lexicon.controls ++ lexicon.definitions.map (·.1) ++ lexicon.openers

theorem isWord_julia_keyword : ∀ w ∈ julia.keywords, ∀ c ∈ w, Text.isWord c = true := by
  have hall : (julia.keywords.all fun w => w.all Text.isWord) = true := by decide +kernel
  intro w hw
  exact List.all_eq_true.1 (List.all_eq_true.1 hall w hw)

theorem julia_regular : julia.Regular where
  keyword_ne_nil := by decide
  isWord_keyword := isWord_julia_keyword
  isSolid_symbol := by decide +kernel
  symbol_head := by decide +kernel
  definition_kind := by decide
  control_not_definition := by decide
  closer_only_closes := by decide

section
variable {lexicon : Lexicon}

theorem control_mem_keywords {w : Text} (hw : w ∈ lexicon.controls) : w ∈ lexicon.keywords := by
  simp [keywords, hw]

theorem definition_mem_keywords {w : Text} (hw : w ∈ lexicon.definitions.map (·.1)) :
    w ∈ lexicon.keywords := by
  unfold keywords
  simp only [List.mem_append]
  exact Or.inl (Or.inl (Or.inr hw))

theorem opener_mem_keywords {w : Text} (hw : w ∈ lexicon.openers) : w ∈ lexicon.keywords := by
  simp [keywords, hw]

theorem closer_mem_keywords : lexicon.closer ∈ lexicon.keywords := by simp [keywords]

variable (h : lexicon.Regular)

include h

theorem isSolid_keyword {w : Text} (hw : w ∈ lexicon.keywords) : Text.isSolid w = true :=
  Text.isSolid_of_isWord (h.isWord_keyword w hw)

theorem isSolid_control : ∀ w ∈ lexicon.controls, Text.isSolid w = true := by
  intro w hw
  exact isSolid_keyword h (control_mem_keywords hw)

theorem isSolid_definition : ∀ p ∈ lexicon.definitions, Text.isSolid p.1 = true := by
  intro p hp
  exact isSolid_keyword h (definition_mem_keywords (List.mem_map_of_mem hp))

theorem isSolid_operator : ∀ w ∈ lexicon.operators, Text.isSolid w = true := by
  intro w hw
  exact h.isSolid_symbol w (by simp [symbols, hw])

/-- A keyword that stands somewhere as a token is the only one there. -/
theorem dropToken?_keyword_eq_none {v w t : Text} (hv : v ∈ lexicon.keywords) (hw : w ∈ lexicon.keywords)
    (ht : Text.endsToken t = true) (hne : v ≠ w) : Text.dropToken? v (w ++ t) = none := by
  cases hr : Text.dropToken? v (w ++ t) with
  | none => rfl
  | some r =>
    have hwt : Text.dropToken? w (w ++ t) = some t := Text.dropToken?_eq_some.2 ⟨rfl, ht⟩
    exact absurd (Text.eq_of_dropToken? (isSolid_keyword h hv) (isSolid_keyword h hw) hr hwt) hne

/-- A symbol starts neither with a blank nor with a word. -/
theorem dropToken?_symbol_eq_none {w t : Text} (hw : w ∈ lexicon.symbols)
    (ht : ∀ a ∈ t.head?, Text.isBlank a = true ∨ Text.isWord a = true) : Text.dropToken? w t = none := by
  cases hr : Text.dropToken? w t with
  | none => rfl
  | some r =>
    obtain ⟨rfl, -⟩ := Text.dropToken?_eq_some.1 hr
    have hhead := h.symbol_head w hw
    have hsolid := h.isSolid_symbol w hw
    cases w with
    | nil => simp at hhead
    | cons a w =>
      have hblank := (Text.isSolid_cons.1 hsolid).1
      rcases ht a (by simp) with ha | ha
      · simp [ha] at hblank
      · simp [ha] at hhead

/-- A keyword starts only where a word starts. -/
theorem dropToken?_eq_none_of_head {w t : Text} (hw : w ∈ lexicon.keywords)
    (ht : ∀ a ∈ t.head?, Text.isWord a = false) : Text.dropToken? w t = none := by
  cases hr : Text.dropToken? w t with
  | none => rfl
  | some r =>
    obtain ⟨rfl, -⟩ := Text.dropToken?_eq_some.1 hr
    obtain ⟨a, v, rfl⟩ := List.exists_cons_of_ne_nil (h.keyword_ne_nil w hw)
    have ha := h.isWord_keyword _ hw a (by simp)
    simp [ht a (by simp)] at ha

end

end Lexicon

end Tagline
