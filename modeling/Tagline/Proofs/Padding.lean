import Mathlib.Data.List.TakeWhile
import Tagline.Line.Name
import Tagline.Proofs.Tokens

/-!
# Padding

Blanks in front of a line, and blanks behind it that no title can hold, do not change what the line
says. Two readers are compared, one of the bare line and one of the padded line. Their cursors stand
at the same place: the second sees what the first sees, with some padding behind it, and its offset is
greater by the size of what was put in front, unless the bare line has come to its end
(Cursor.Padded). Every move keeps this.
-/

namespace Tagline

namespace Text

/-! ## Padding behind a text -/

/-- Whether a text can stand behind a line unnoticed. A title can end in a space, but in no other
blank. -/
def IsPadding (v : Text) : Prop := ∀ a ∈ v, isBlank a = true ∧ a ≠ ' '

/-- A class of characters without those of which padding consists. -/
def StopsAtPadding (p : Char → Bool) : Prop := ∀ a, isBlank a = true → a ≠ ' ' → p a = false

theorem isPadding_nil : IsPadding [] := by
  intro a ha
  simp at ha

/-- Where a class stops inside a text, what stands behind the text does not matter. -/
theorem skip_append_of_ne_nil {p : Char → Bool} {t : Text} (hne : t.dropWhile p ≠ []) (v : Text) :
    (t ++ v).takeWhile p = t.takeWhile p ∧ (t ++ v).dropWhile p = t.dropWhile p ++ v := by
  have hshort : (t.takeWhile p).length ≠ t.length := by
    intro hlen
    have hsplit := congrArg List.length (List.takeWhile_append_dropWhile (p := p) (l := t))
    rw [List.length_append] at hsplit
    exact hne (List.length_eq_zero_iff.1 (by omega))
  constructor
  · rw [List.takeWhile_append, if_neg hshort]
  · rw [List.dropWhile_append, if_neg (by simpa using hne)]

section
variable {v : Text} (hv : IsPadding v)

include hv

theorem IsPadding.tail : IsPadding v.tail := fun a ha => hv a (List.mem_of_mem_tail ha)

theorem endsToken_append_padding (t : Text) : endsToken (t ++ v) = endsToken t := by
  cases t with
  | cons a t => rfl
  | nil =>
    cases v with
    | nil => rfl
    | cons a v =>
      obtain ⟨hblank, -⟩ := hv a (by simp)
      simp [endsToken, hblank]

/-- A solid literal does not reach into the padding. -/
theorem exists_of_append_padding {w t r : Text} (hw : isSolid w = true) (heq : t ++ v = w ++ r) :
    ∃ x, t = w ++ x ∧ r = x ++ v := by
  rcases List.append_eq_append_iff.1 heq with ⟨x, rfl, rfl⟩ | ⟨x, rfl, rfl⟩
  · have hpad : IsPadding x := fun a ha => hv a (List.mem_append_left _ ha)
    have hends : endsToken (x ++ []) = true := by
      rw [List.append_nil]
      exact endsToken_append_padding hpad []
    have hx : x = [] := eq_nil_of_endsToken (isSolid_append.1 hw).2 hends
    subst hx
    exact ⟨[], by simp, rfl⟩
  · exact ⟨x, rfl, rfl⟩

theorem isPrefixOf_append_padding {w : Text} (hw : isSolid w = true) (t : Text) :
    w.isPrefixOf (t ++ v) = w.isPrefixOf t := by
  rw [Bool.eq_iff_iff, List.isPrefixOf_iff_prefix, List.isPrefixOf_iff_prefix]
  constructor
  · rintro ⟨r, hr⟩
    obtain ⟨x, hx, -⟩ := exists_of_append_padding hv hw hr.symm
    exact ⟨x, hx.symm⟩
  · intro hprefix
    exact hprefix.trans (List.prefix_append t v)

/-- Padding behind a text does not touch the token at its start. -/
theorem dropToken?_append_padding {w : Text} (hw : isSolid w = true) (t : Text) :
    dropToken? w (t ++ v) = (dropToken? w t).map (· ++ v) := by
  cases hr : dropToken? w t with
  | some r =>
    obtain ⟨rfl, hend⟩ := dropToken?_eq_some.1 hr
    refine dropToken?_eq_some.2 ⟨List.append_assoc .., ?_⟩
    rw [endsToken_append_padding hv, hend]
  | none =>
    cases hs : dropToken? w (t ++ v) with
    | none => rfl
    | some s =>
      obtain ⟨heq, hend⟩ := dropToken?_eq_some.1 hs
      obtain ⟨x, rfl, rfl⟩ := exists_of_append_padding hv hw heq
      rw [endsToken_append_padding hv] at hend
      rw [dropToken?_eq_some.2 ⟨rfl, hend⟩] at hr
      simp at hr

theorem isSome_dropToken?_append_padding {w : Text} (hw : isSolid w = true) (t : Text) :
    (dropToken? w (t ++ v)).isSome = (dropToken? w t).isSome := by
  rw [dropToken?_append_padding hv hw, Option.isSome_map]

variable {p : Char → Bool} (hp : StopsAtPadding p)

include hp

theorem takeWhile_padding : v.takeWhile p = [] := by
  cases v with
  | nil => rfl
  | cons a v =>
    obtain ⟨hblank, hspace⟩ := hv a (by simp)
    simp [hp a hblank hspace]

theorem takeWhile_append_padding (t : Text) : (t ++ v).takeWhile p = t.takeWhile p := by
  rw [List.takeWhile_append]
  split
  · next hall =>
    rw [takeWhile_padding hv hp, List.append_nil]
    exact (List.takeWhile_prefix p).eq_of_length hall |>.symm
  · rfl

theorem dropWhile_append_padding (t : Text) : (t ++ v).dropWhile p = t.dropWhile p ++ v := by
  have hsplit : (t ++ v).takeWhile p ++ (t ++ v).dropWhile p = t.takeWhile p ++ (t.dropWhile p ++ v) := by
    rw [List.takeWhile_append_dropWhile, ← List.append_assoc, List.takeWhile_append_dropWhile]
  rw [takeWhile_append_padding hv hp] at hsplit
  exact List.append_cancel_left hsplit

end

theorem stopsAtPadding_isWord : StopsAtPadding isWord := fun _ ha _ => not_isWord_of_isBlank ha

end Text

theorem Kind.stopsAtPadding_admits (kind : Kind) : Text.StopsAtPadding kind.admits := by
  intro a hblank hspace
  have halnum := Text.not_isAlphanumeric_of_isBlank hblank
  have htitle : (" ,\".#_?!='/-".toList.contains a) = false := by
    rw [Bool.eq_false_iff]
    intro hmem
    rw [List.contains_iff_mem] at hmem
    have hall : (" ,\".#_?!='/-".toList.all fun b => !Text.isBlank b || b == ' ') = true := by decide
    have ha := List.all_eq_true.1 hall a hmem
    rw [hblank, Bool.not_true, Bool.false_or, beq_iff_eq] at ha
    exact hspace ha
  have hline : (a == '_') = false := by
    rw [beq_eq_false_iff_ne]
    rintro rfl
    exact absurd hblank (by decide)
  unfold Kind.admits
  rw [halnum, Bool.false_or]
  cases kind <;> assumption

theorem exists_of_rel_some {α β : Type} {r : α → β → Prop} {a : α} {o : Option β}
    (h : Option.Rel r (some a) o) : ∃ b, o = some b ∧ r a b := by
  cases h with
  | some hab => exact ⟨_, rfl, hab⟩

theorem eq_none_of_rel_none {α β : Type} {r : α → β → Prop} {o : Option β}
    (h : Option.Rel r none o) : o = none := by
  cases h
  rfl

/-! ## Cursors of a bare and of a padded line -/

/-- The second cursor stands in a padded line where the first stands in the bare one, and `shift`
bytes were put in front. -/
structure Cursor.Padded (shift : Nat) (c d : Cursor) : Prop where
  rest : ∃ v, Text.IsPadding v ∧ d.rest = c.rest ++ v
  offset : c.rest ≠ [] → d.offset = c.offset + shift

namespace Cursor.Padded

section
variable {shift : Nat} {c d : Cursor} (hc : Padded shift c d)

include hc

/-- Two cursors that pass over the same characters end at the same place. -/
theorem skipWhile_of_takeWhile {p : Char → Bool} {v : Text} (hv : Text.IsPadding v)
    (htake : d.rest.takeWhile p = c.rest.takeWhile p)
    (hdrop : d.rest.dropWhile p = c.rest.dropWhile p ++ v) :
    Padded shift (c.skipWhile p) (d.skipWhile p) := by
  refine ⟨⟨v, hv, hdrop⟩, ?_⟩
  intro hne
  have hsome : c.rest ≠ [] := by
    intro hnil
    exact hne (by rw [Cursor.skipWhile, hnil]; rfl)
  show d.offset + Text.byteSize (d.rest.takeWhile p) =
    c.offset + Text.byteSize (c.rest.takeWhile p) + shift
  rw [htake, hc.offset hsome]
  omega

theorem takeWhile_eq {p : Char → Bool} (hp : Text.StopsAtPadding p) :
    d.rest.takeWhile p = c.rest.takeWhile p := by
  obtain ⟨v, hv, hrest⟩ := hc.rest
  rw [hrest, Text.takeWhile_append_padding hv hp]

theorem skipWhile {p : Char → Bool} (hp : Text.StopsAtPadding p) :
    Padded shift (c.skipWhile p) (d.skipWhile p) := by
  obtain ⟨v, hv, hrest⟩ := hc.rest
  apply hc.skipWhile_of_takeWhile hv (hc.takeWhile_eq hp)
  rw [hrest, Text.dropWhile_append_padding hv hp]

/-- Where only blanks are left, the blanks behind them are passed over as well. -/
theorem skipBlank : Padded shift c.skipBlank d.skipBlank := by
  obtain ⟨v, hv, hrest⟩ := hc.rest
  by_cases hdrop : c.rest.dropWhile Text.isBlank = []
  · have hblank : ∀ a ∈ v, Text.isBlank a = true := fun a ha => (hv a ha).1
    have hend : d.rest.dropWhile Text.isBlank = [] := by
      rw [hrest, List.dropWhile_append, hdrop]
      exact List.dropWhile_eq_nil_iff.2 hblank
    refine ⟨⟨[], Text.isPadding_nil, ?_⟩, fun hne => absurd hdrop hne⟩
    show d.rest.dropWhile Text.isBlank = c.rest.dropWhile Text.isBlank ++ []
    rw [hend, hdrop]
    rfl
  · obtain ⟨htake, hbehind⟩ := Text.skip_append_of_ne_nil hdrop v
    rw [← hrest] at htake hbehind
    exact hc.skipWhile_of_takeWhile hv htake hbehind

theorem bump : Padded shift c.bump d.bump := by
  obtain ⟨v, hv, hrest⟩ := hc.rest
  cases hr : c.rest with
  | nil =>
    have hstay : c.bump = c := by simp [Cursor.bump, hr]
    rw [hr, List.nil_append] at hrest
    rw [hstay]
    refine ⟨⟨v.tail, hv.tail, ?_⟩, fun hne => absurd hr hne⟩
    rw [hr]
    cases v with
    | nil => simp [Cursor.bump, hrest]
    | cons a v => simp [Cursor.bump, hrest]
  | cons a r =>
    have hoffset := hc.offset (by simp [hr])
    have hmoved : c.bump = ⟨c.offset + a.utf8Size, r⟩ := by simp [Cursor.bump, hr]
    have hmoved' : d.bump = ⟨d.offset + a.utf8Size, r ++ v⟩ := by simp [Cursor.bump, hrest, hr]
    rw [hmoved, hmoved']
    refine ⟨⟨v, hv, rfl⟩, ?_⟩
    intro _
    show d.offset + a.utf8Size = c.offset + a.utf8Size + shift
    omega

/-- What is no blank is seen by both or by none. -/
theorem peek?_eq_some_iff {a : Char} (ha : Text.isBlank a = false) :
    d.peek? = some a ↔ c.peek? = some a := by
  obtain ⟨v, hv, hrest⟩ := hc.rest
  cases hr : c.rest with
  | cons b r => simp [Cursor.peek?, hrest, hr]
  | nil =>
    rw [hr, List.nil_append] at hrest
    constructor
    · intro hd
      have hmem : a ∈ v := List.mem_of_mem_head? (by rw [Cursor.peek?, hrest] at hd; exact hd)
      rw [(hv a hmem).1] at ha
      simp at ha
    · intro hd
      simp [Cursor.peek?, hr] at hd

theorem peek?_of_ne_nil (hne : c.rest ≠ []) : d.peek? = c.peek? := by
  obtain ⟨v, hv, hrest⟩ := hc.rest
  obtain ⟨a, r, hr⟩ := List.exists_cons_of_ne_nil hne
  simp [Cursor.peek?, hrest, hr]

/-- A token is found by both or by none. -/
theorem eat? {w : Text} (hw : Text.isSolid w = true) :
    Option.Rel (Padded shift) (c.eat? w) (d.eat? w) := by
  obtain ⟨v, hv, hrest⟩ := hc.rest
  have hdrop := Text.dropToken?_append_padding hv hw c.rest
  rw [← hrest] at hdrop
  unfold Cursor.eat?
  rw [hdrop]
  cases hr : Text.dropToken? w c.rest with
  | none => exact .none
  | some r =>
    refine .some ⟨⟨v, hv, rfl⟩, ?_⟩
    intro hne
    obtain ⟨heq, -⟩ := Text.dropToken?_eq_some.1 hr
    have hsome : c.rest ≠ [] := by
      intro hnil
      rw [hnil] at heq
      exact hne (List.append_eq_nil_iff.1 heq.symm).2
    show d.offset + Text.byteSize w = c.offset + Text.byteSize w + shift
    rw [hc.offset hsome]
    omega

/-- The first token of a table that stands at the cursors is the same. -/
theorem findSome?_eat? {α β : Type} {table : List α} {word : α → Text} (value : α → β)
    (hsolid : ∀ a ∈ table, Text.isSolid (word a) = true) :
    Option.Rel (fun p q => p.1 = q.1 ∧ Padded shift p.2 q.2)
      (table.findSome? fun a => (c.eat? (word a)).map (value a, ·))
      (table.findSome? fun a => (d.eat? (word a)).map (value a, ·)) := by
  induction table with
  | nil => exact .none
  | cons a table ih =>
    have hrest := ih fun b hb => hsolid b (List.mem_cons_of_mem _ hb)
    have heat := hc.eat? (hsolid a (by simp))
    rw [List.findSome?_cons, List.findSome?_cons]
    generalize c.eat? (word a) = found, d.eat? (word a) = found' at heat ⊢
    cases heat with
    | some he => exact .some ⟨rfl, he⟩
    | none => exact hrest

theorem eatAny?_eq_some {literals : List Text} {literal : Text} {c' : Cursor}
    (hsolid : ∀ w ∈ literals, Text.isSolid w = true) (he : c.eatAny? literals = some (literal, c')) :
    ∃ d', d.eatAny? literals = some (literal, d') ∧ Padded shift c' d' := by
  have hrel : Option.Rel _ (c.eatAny? literals) (d.eatAny? literals) := hc.findSome?_eat? id hsolid
  rw [he] at hrel
  obtain ⟨⟨_, d'⟩, hd, rfl, hpad⟩ := exists_of_rel_some hrel
  exact ⟨d', hd, hpad⟩

theorem eatAny?_eq_none {literals : List Text} (hsolid : ∀ w ∈ literals, Text.isSolid w = true)
    (he : c.eatAny? literals = none) : d.eatAny? literals = none := by
  have hrel : Option.Rel _ (c.eatAny? literals) (d.eatAny? literals) := hc.findSome?_eat? id hsolid
  rw [he] at hrel
  exact eq_none_of_rel_none hrel

end

/-- Blanks in front of a line are passed over with its own. -/
theorem skipBlank_ofLine {line u v : Text} (hu : ∀ a ∈ u, Text.isBlank a = true)
    (hv : Text.IsPadding v) :
    Padded (Text.byteSize u) (ofLine line).skipBlank (ofLine (u ++ (line ++ v))).skipBlank := by
  have hstart : Padded (Text.byteSize u) (ofLine line) ⟨Text.byteSize u, line ++ v⟩ := by
    refine ⟨⟨v, hv, rfl⟩, ?_⟩
    intro _
    exact (Nat.zero_add _).symm
  have hskip : (ofLine (u ++ (line ++ v))).skipBlank =
      (Cursor.mk (Text.byteSize u) (line ++ v)).skipBlank := by
    simp only [ofLine, Cursor.skipBlank, Cursor.skipWhile, List.takeWhile_append_of_pos hu,
      List.dropWhile_append_of_pos hu, Text.byteSize_append, Nat.zero_add]
  rw [hskip]
  exact hstart.skipBlank

end Cursor.Padded

end Tagline
