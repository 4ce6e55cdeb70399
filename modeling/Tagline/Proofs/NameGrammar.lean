import Tagline.Proofs.Names

/-!
# The grammar of names

Where a name is read, the text splits into the blanks in front, the receivers of a function, the name,
and what is left behind it. Each part ends where its class of characters ends, and an operator is a
name only as a token. Every text splits in one way only, and the reader follows this split

    parts.Fits operators kind → kind.readName operators ⟨offset, parts.text⟩ = parts.reading kind offset
                                                                   (readName_of_fits)

but for classes without a name, which `<<` shows. An operator starts neither with a word nor with a
dot, so where one stands there is no receiver.
-/

namespace Tagline

/-! ## Grammar -/

/-- A run of characters of a class that ends where another character, or nothing, follows. -/
structure Text.IsRun (p : Char → Bool) (run behind : Text) : Prop where
  inside : ∀ a ∈ run, p a = true
  outside : ∀ a ∈ behind.head?, p a = false

/-- What stands before the dot of a receiver, and the blanks behind the dot. -/
structure Receiver where
  word : Text
  gap : Text
deriving DecidableEq, Repr

namespace Receiver

/-- The receiver with its dot and the blanks behind it. -/
def text (r : Receiver) : Text := r.word ++ '.' :: r.gap

def texts (rs : List Receiver) : Text := rs.flatMap text

/-- Whether receivers are words with all the blanks behind their dots, in front of a text. -/
def Fit : List Receiver → Text → Prop
  | [], _ => True
  | r :: rs, t => (∀ a ∈ r.word, Text.isWord a = true) ∧ Text.IsRun Text.isBlank r.gap (texts rs ++ t) ∧
      Fit rs t

end Receiver

/-- The name of a function, without receivers, and what stands behind it: an operator that is a token, or
where there is none, a word, with a mark if one follows. A word in front of a dot is no name. -/
inductive IsCallableName (operators : List Text) : Text → Text → Prop
  | operator {name behind : Text} (hmem : name ∈ operators) (hend : Text.endsToken behind = true) :
    IsCallableName operators name behind
  | word {word behind : Text} (hnone : ∀ w ∈ operators, Text.dropToken? w (word ++ behind) = none)
    (hrun : Text.IsRun Text.isWord word behind) (hdot : behind.head? ≠ some '.')
    (hmark : ∀ a ∈ behind.head?, isNameMark a = false) : IsCallableName operators word behind
  | marked {word behind : Text} {mark : Char}
    (hnone : ∀ w ∈ operators, Text.dropToken? w (word ++ mark :: behind) = none)
    (hrun : Text.IsRun Text.isWord word (mark :: behind)) (hmark : isNameMark mark = true) :
    IsCallableName operators (word ++ [mark]) behind

/-- The parts of a text where a name is read. -/
structure NameParts where
  gap : Text
  receivers : List Receiver
  name : Text
  behind : Text
deriving DecidableEq, Repr

namespace NameParts

def before (p : NameParts) : Text := p.gap ++ Receiver.texts p.receivers

def text (p : NameParts) : Text := p.before ++ (p.name ++ p.behind)

def kind (requested : Kind) (p : NameParts) : Kind :=
  if p.receivers = [] then requested else .singletonMethod

/-- What a reader gives that follows the parts. -/
def reading (requested : Kind) (offset : Nat) (p : NameParts) : NameReading × Cursor :=
  (.named (p.kind requested) p.name (offset + Text.byteSize p.before),
    ⟨offset + Text.byteSize p.before + Text.byteSize p.name, p.behind⟩)

/-- The grammar of names: all blanks stand in the gap, then a function has receivers and a name, and
another definition has the longest run of characters that its kind admits. -/
structure Fits (operators : List Text) (kind : Kind) (p : NameParts) : Prop where
  gap : Text.IsRun Text.isBlank p.gap (Receiver.texts p.receivers ++ (p.name ++ p.behind))
  callable : kind.isCallable = true →
    Receiver.Fit p.receivers (p.name ++ p.behind) ∧ IsCallableName operators p.name p.behind
  plain : kind.isCallable = false → p.receivers = [] ∧ Text.IsRun kind.admits p.name p.behind

end NameParts

/-! ## Runs -/

namespace Text.IsRun

variable {p : Char → Bool} {run behind : Text}

theorem takeWhile_eq (h : IsRun p run behind) : (run ++ behind).takeWhile p = run :=
  takeWhile_append_of_head h.inside h.outside

theorem dropWhile_eq (h : IsRun p run behind) : (run ++ behind).dropWhile p = behind :=
  dropWhile_append_of_head h.inside h.outside

theorem skipWhile_eq (h : IsRun p run behind) (offset : Nat) :
    Cursor.skipWhile p ⟨offset, run ++ behind⟩ = ⟨offset + byteSize run, behind⟩ :=
  Cursor.skipWhile_append h.inside h.outside offset

/-- A text starts with one run of a class. -/
theorem unique {run' behind' : Text} (h : IsRun p run behind) (h' : IsRun p run' behind')
    (heq : run ++ behind = run' ++ behind') : run = run' ∧ behind = behind' := by
  refine ⟨?_, ?_⟩
  · rw [← h.takeWhile_eq, heq, h'.takeWhile_eq]
  · rw [← h.dropWhile_eq, heq, h'.dropWhile_eq]

theorem of_takeWhile (p : Char → Bool) (t : Text) : IsRun p (t.takeWhile p) (t.dropWhile p) where
  inside := List.all_eq_true.1 List.all_takeWhile
  outside := by
    intro a ha
    have hhead := List.head?_dropWhile_not p t
    rw [Option.mem_def.1 ha] at hhead
    simpa using hhead

end Text.IsRun

/-- The word of a receiver is a run, because the dot is no word character. -/
theorem Receiver.isRun_word {r : Receiver} (hword : ∀ a ∈ r.word, Text.isWord a = true) (t : Text) :
    Text.IsRun Text.isWord r.word ('.' :: t) where
  inside := hword
  outside := by
    intro a ha
    obtain rfl : '.' = a := by simpa using ha
    decide

@[simp] theorem Receiver.texts_nil : texts [] = [] := rfl

@[simp] theorem Receiver.texts_cons (r : Receiver) (rs : List Receiver) :
    texts (r :: rs) = r.word ++ '.' :: (r.gap ++ texts rs) := by
  simp [texts, text]

/-- **Receivers** in front of a text are determined by the text. -/
theorem Receiver.Fit.unique {rs rs' : List Receiver} {t : Text} (h : Fit rs t) (h' : Fit rs' t)
    (heq : texts rs = texts rs') : rs = rs' := by
  induction rs generalizing rs' with
  | nil =>
    cases rs' with
    | nil => rfl
    | cons r' rs' => simp at heq
  | cons r rs ih =>
    cases rs' with
    | nil => simp at heq
    | cons r' rs' =>
      obtain ⟨hword, hgap, hrs⟩ := h
      obtain ⟨hword', hgap', hrs'⟩ := h'
      rw [texts_cons, texts_cons] at heq
      obtain ⟨hw, hdot⟩ := (isRun_word hword _).unique (isRun_word hword' _) heq
      have htail : r.gap ++ (texts rs ++ t) = r'.gap ++ (texts rs' ++ t) := by
        rw [List.cons.injEq] at hdot
        rw [← List.append_assoc, hdot.2, List.append_assoc]
      obtain ⟨hg, hbehind⟩ := hgap.unique hgap' htail
      rw [ih hrs hrs' (List.append_cancel_right hbehind)]
      cases r
      cases r'
      simp_all

theorem NameParts.text_eq (p : NameParts) :
    p.text = p.gap ++ (Receiver.texts p.receivers ++ (p.name ++ p.behind)) := by
  rw [text, before, List.append_assoc]

/-! ## Following the parts -/

namespace Kind

theorem readPlain_of_run (kind : Kind) (offset : Nat) {gap name behind : Text}
    (hgap : Text.IsRun Text.isBlank gap (name ++ behind))
    (hname : Text.IsRun kind.admits name behind) :
    kind.readPlain ⟨offset, gap ++ (name ++ behind)⟩ =
      if kind = .classDef ∧ "<<".toList <+: name ++ behind then
        (.anonymousClass, ⟨offset + Text.byteSize gap, name ++ behind⟩)
      else NameParts.reading kind offset ⟨gap, [], name, behind⟩ := by
  have hstart : (Cursor.mk offset (gap ++ (name ++ behind))).skipBlank =
      ⟨offset + Text.byteSize gap, name ++ behind⟩ := hgap.skipWhile_eq offset
  rw [readPlain_eq, hstart]
  simp only [List.isPrefixOf_iff_prefix, hname.takeWhile_eq, hname.skipWhile_eq, NameParts.reading,
    NameParts.kind, NameParts.before, Receiver.texts_nil, List.append_nil, if_true]

section
variable {lexicon : Lexicon} (h : lexicon.Regular)
  (hdot : ∀ w ∈ lexicon.operators, w.head? ≠ some '.')

include h

/-- A name without receivers is read as it stands. -/
theorem readCallable_of_name (kind : Kind) (offset : Nat) {gap name behind : Text}
    (hgap : Text.IsRun Text.isBlank gap (name ++ behind))
    (hname : IsCallableName lexicon.operators name behind) :
    kind.readCallable lexicon.operators ⟨offset, gap ++ (name ++ behind)⟩ =
      (.named kind name (offset + Text.byteSize gap),
        ⟨offset + Text.byteSize gap + Text.byteSize name, behind⟩) := by
  have hstart : (Cursor.mk offset (gap ++ (name ++ behind))).skipBlank =
      ⟨offset + Text.byteSize gap, name ++ behind⟩ := hgap.skipWhile_eq offset
  cases hname with
  | operator hmem hend =>
    rw [readCallable_of_operator (by
      rw [hstart]
      exact Cursor.eatAny?_of_token (Lexicon.isSolid_operator h) hmem rfl hend), hstart]
  | word hnone hrun hdot hmark =>
    have hops : (Cursor.mk offset (gap ++ (name ++ behind))).skipBlank.eatAny? lexicon.operators =
        none := by
      rw [hstart]
      exact Cursor.eatAny?_eq_none_iff.2 hnone
    have hskip : (Cursor.mk offset (gap ++ (name ++ behind))).skipBlank.skipWhile Text.isWord =
        ⟨offset + Text.byteSize gap + Text.byteSize name, behind⟩ := by
      rw [hstart, hrun.skipWhile_eq]
    have hmark' : behind.head?.filter isNameMark = none := by
      rw [Option.filter_eq_none_iff]
      intro a ha
      simp [hmark a ha]
    rw [readCallable_of_word hops (by rw [hskip]; exact hdot), hskip, hstart]
    simp only [Cursor.peek?, hmark', hrun.takeWhile_eq, Option.toList_none, List.append_nil]
    rfl
  | @marked word behind mark hnone hrun hmark =>
    have hassoc : word ++ [mark] ++ behind = word ++ mark :: behind := by simp
    rw [hassoc] at hstart ⊢
    have hops : (Cursor.mk offset (gap ++ (word ++ mark :: behind))).skipBlank.eatAny?
        lexicon.operators = none := by
      rw [hstart]
      exact Cursor.eatAny?_eq_none_iff.2 hnone
    have hskip : (Cursor.mk offset (gap ++ (word ++ mark :: behind))).skipBlank.skipWhile Text.isWord =
        ⟨offset + Text.byteSize gap + Text.byteSize word, mark :: behind⟩ := by
      rw [hstart, hrun.skipWhile_eq]
    have hdot : mark ≠ '.' := by
      rintro rfl
      exact absurd hmark (by decide)
    rw [readCallable_of_word hops (by rw [hskip]; simpa [Cursor.peek?] using hdot), hskip, hstart]
    simp [Cursor.peek?, Cursor.bump, hmark, hrun.takeWhile_eq, Nat.add_assoc]

include hdot

/-- Where a receiver stands, no operator does. -/
theorem eatAny?_operators_of_receiver {word : Text} (hword : ∀ a ∈ word, Text.isWord a = true)
    (offset : Nat) (t : Text) :
    (Cursor.mk offset (word ++ '.' :: t)).eatAny? lexicon.operators = none := by
  rw [Cursor.eatAny?_eq_none_iff]
  intro w hw
  cases word with
  | nil =>
    cases hr : Text.dropToken? w ('.' :: t) with
    | none => exact hr
    | some r =>
      obtain ⟨hsplit, -⟩ := Text.dropToken?_eq_some.1 hr
      have hhead := h.symbol_head w (by simp [Lexicon.symbols, hw])
      cases w with
      | nil => simp at hhead
      | cons a w =>
        rw [List.cons_append, List.cons.injEq] at hsplit
        exact absurd (by rw [List.head?_cons, hsplit.1]) (hdot _ hw)
  | cons b word =>
    apply Lexicon.dropToken?_symbol_eq_none h (by simp [Lexicon.symbols, hw])
    intro a ha
    obtain rfl : b = a := by simpa using ha
    exact Or.inr (hword b (by simp))

/-- **Receivers are dropped.** -/
theorem readCallable_of_receivers (kind : Kind) (offset : Nat) {gap name behind : Text}
    {rs : List Receiver} (hgap : Text.IsRun Text.isBlank gap (Receiver.texts rs ++ (name ++ behind)))
    (hrs : Receiver.Fit rs (name ++ behind))
    (hname : IsCallableName lexicon.operators name behind) :
    kind.readCallable lexicon.operators
        ⟨offset, gap ++ (Receiver.texts rs ++ (name ++ behind))⟩ =
      NameParts.reading kind offset ⟨gap, rs, name, behind⟩ := by
  induction rs generalizing kind offset gap with
  | nil =>
    simp only [Receiver.texts_nil, List.nil_append] at hgap ⊢
    rw [readCallable_of_name h kind offset hgap hname]
    simp [NameParts.reading, NameParts.kind, NameParts.before]
  | cons r rs ih =>
    obtain ⟨hword, hinner, hfit⟩ := hrs
    have htext : Receiver.texts (r :: rs) ++ (name ++ behind) =
        r.word ++ '.' :: (r.gap ++ (Receiver.texts rs ++ (name ++ behind))) := by simp
    rw [htext] at hgap ⊢
    have hstart := hgap.skipWhile_eq offset
    have hskip := (Receiver.isRun_word hword (r.gap ++ (Receiver.texts rs ++ (name ++ behind)))).skipWhile_eq
      (offset + Text.byteSize gap)
    rw [readCallable_of_receiver
      (by
        rw [Cursor.skipBlank, hstart]
        exact eatAny?_operators_of_receiver h hdot hword _ _)
      (by
        rw [Cursor.skipBlank, hstart, hskip]
        rfl),
      Cursor.skipBlank, hstart, hskip]
    have hbehind := ih .singletonMethod (offset + Text.byteSize gap + Text.byteSize r.word + 1) hinner hfit
    show readCallable .singletonMethod lexicon.operators
      ⟨offset + Text.byteSize gap + Text.byteSize r.word + '.'.utf8Size, _⟩ = _
    rw [show '.'.utf8Size = 1 from rfl, hbehind]
    have hsize : Text.byteSize (gap ++ Receiver.texts (r :: rs)) =
        Text.byteSize gap + Text.byteSize r.word + 1 + Text.byteSize (r.gap ++ Receiver.texts rs) := by
      simp only [Receiver.texts_cons, Text.byteSize_append, Text.byteSize_cons]
      rw [show '.'.utf8Size = 1 from rfl]
      omega
    simp only [NameParts.reading, NameParts.kind, NameParts.before, hsize, ite_self, Nat.add_assoc,
      List.cons_ne_nil, if_false]

/-- **The reader follows the parts.** -/
theorem readName_of_fits (kind : Kind) (offset : Nat) {p : NameParts}
    (hp : p.Fits lexicon.operators kind) :
    kind.readName lexicon.operators ⟨offset, p.text⟩ =
      if kind = .classDef ∧ "<<".toList <+: p.text.dropWhile Text.isBlank then
        (.anonymousClass, (Cursor.mk offset p.text).skipBlank)
      else p.reading kind offset := by
  obtain ⟨gap, rs, name, behind⟩ := p
  rw [NameParts.text_eq, hp.gap.dropWhile_eq, Cursor.skipBlank, hp.gap.skipWhile_eq]
  unfold readName
  cases hcall : kind.isCallable with
  | true =>
    obtain ⟨hrs, hname⟩ := hp.callable hcall
    have hclass : kind ≠ .classDef := by
      rintro rfl
      simp [isCallable] at hcall
    rw [if_pos rfl, if_neg (fun hc => hclass hc.1)]
    exact readCallable_of_receivers h hdot kind offset hp.gap hrs hname
  | false =>
    obtain ⟨hrs, hname⟩ := hp.plain hcall
    dsimp only at hrs
    subst hrs
    have hgap : Text.IsRun Text.isBlank gap (name ++ behind) := hp.gap
    rw [if_neg (by simp)]
    exact readPlain_of_run kind offset hgap hname

end

end Kind

/-! ## Every text has its parts -/

/-- The blanks in front of a text are its gap. -/
theorem NameParts.of_dropWhile {t : Text} (rs : List Receiver) {name behind : Text}
    (ht : t.dropWhile Text.isBlank = Receiver.texts rs ++ (name ++ behind)) :
    NameParts.text ⟨t.takeWhile Text.isBlank, rs, name, behind⟩ = t ∧
      Text.IsRun Text.isBlank (t.takeWhile Text.isBlank) (Receiver.texts rs ++ (name ++ behind)) := by
  refine ⟨?_, ?_⟩
  · rw [text_eq]
    dsimp only
    rw [← ht, List.takeWhile_append_dropWhile]
  · rw [← ht]
    exact Text.IsRun.of_takeWhile Text.isBlank t

namespace Kind

/-- A function has its parts in every text. -/
theorem exists_parts_of_readCallable (kind : Kind) (operators : List Text) (c : Cursor) :
    ∃ p : NameParts, p.text = c.rest ∧
      Text.IsRun Text.isBlank p.gap (Receiver.texts p.receivers ++ (p.name ++ p.behind)) ∧
      Receiver.Fit p.receivers (p.name ++ p.behind) ∧ IsCallableName operators p.name p.behind := by
  fun_induction readCallable kind operators c with
  | case1 kind c start operator d ho =>
    obtain ⟨hmem, heat⟩ := Cursor.eatAny?_mem ho
    obtain ⟨hrest, hend, -⟩ := Cursor.eat?_eq_some.1 heat
    obtain ⟨htext, hgap⟩ := NameParts.of_dropWhile (t := c.rest) [] hrest
    exact ⟨_, htext, hgap, trivial, .operator hmem hend⟩
  | case2 kind c start ho behind hdot ih =>
    obtain ⟨p, htext, hinner, hfit, hname⟩ := ih
    obtain ⟨tail, htail⟩ := List.head?_eq_some_iff.1 hdot
    have hbump : behind.bump.rest = tail := by simp [Cursor.bump, htail]
    rw [hbump, p.text_eq] at htext
    -- the receiver is put in front of those behind its dot
    have hstart : start.rest = Receiver.texts (⟨start.rest.takeWhile Text.isWord, p.gap⟩ :: p.receivers) ++
        (p.name ++ p.behind) := by
      rw [Receiver.texts_cons, List.append_assoc, List.cons_append, List.append_assoc, htext, ← htail]
      exact List.takeWhile_append_dropWhile.symm
    obtain ⟨htext', hgap⟩ := NameParts.of_dropWhile _ hstart
    exact ⟨_, htext', hgap, ⟨(Text.IsRun.of_takeWhile Text.isWord start.rest).inside, hinner, hfit⟩, hname⟩
  | case3 kind c start ho word behind hdot mark hmark =>
    obtain ⟨hpeek, hmark⟩ := Option.filter_eq_some_iff.1 hmark
    obtain ⟨tail, htail⟩ := List.head?_eq_some_iff.1 hpeek
    have hrun := Text.IsRun.of_takeWhile Text.isWord start.rest
    have hbehind : start.rest.dropWhile Text.isWord = mark :: tail := htail
    have hstart : start.rest = word ++ mark :: tail := by
      rw [← hbehind]
      exact List.takeWhile_append_dropWhile.symm
    rw [hbehind] at hrun
    have hname : IsCallableName operators (word ++ [mark]) tail := by
      refine .marked ?_ hrun hmark
      rw [← hstart]
      exact Cursor.eatAny?_eq_none_iff.1 ho
    have hparts : start.rest = word ++ [mark] ++ tail := by
      rw [List.append_assoc]
      exact hstart
    obtain ⟨htext, hgap⟩ := NameParts.of_dropWhile (t := c.rest) [] hparts
    exact ⟨_, htext, hgap, trivial, hname⟩
  | case4 kind c start ho word behind hdot hmark =>
    have hstart : start.rest = word ++ behind.rest := List.takeWhile_append_dropWhile.symm
    have hname : IsCallableName operators word behind.rest := by
      refine .word ?_ (Text.IsRun.of_takeWhile Text.isWord start.rest) hdot ?_
      · rw [← hstart]
        exact Cursor.eatAny?_eq_none_iff.1 ho
      · intro a ha
        have hfilter := Option.filter_eq_none_iff.1 hmark a ha
        simpa using hfilter
    obtain ⟨htext, hgap⟩ := NameParts.of_dropWhile (t := c.rest) [] hstart
    exact ⟨_, htext, hgap, trivial, hname⟩

/-- **Every text has its parts.** -/
theorem exists_parts (operators : List Text) (kind : Kind) (t : Text) :
    ∃ p : NameParts, p.text = t ∧ p.Fits operators kind := by
  cases hcall : kind.isCallable with
  | true =>
    obtain ⟨p, htext, hgap, hparts⟩ := exists_parts_of_readCallable kind operators ⟨0, t⟩
    exact ⟨p, htext, hgap, fun _ => hparts, fun hnot => by simp [hcall] at hnot⟩
  | false =>
    have hstart : t.dropWhile Text.isBlank = (t.dropWhile Text.isBlank).takeWhile kind.admits ++
        (t.dropWhile Text.isBlank).dropWhile kind.admits := List.takeWhile_append_dropWhile.symm
    obtain ⟨htext, hgap⟩ := NameParts.of_dropWhile [] hstart
    exact ⟨_, htext, hgap, fun hnot => by simp [hcall] at hnot,
      fun _ => ⟨rfl, Text.IsRun.of_takeWhile kind.admits _⟩⟩

end Kind

/-! ## The parts are unique -/

section
variable {lexicon : Lexicon} (h : lexicon.Regular)
  (hdot : ∀ w ∈ lexicon.operators, w.head? ≠ some '.')

include h hdot

/-- **The parts of a text are unique.** -/
theorem NameParts.Fits.unique {kind : Kind} {p q : NameParts} (hp : p.Fits lexicon.operators kind)
    (hq : q.Fits lexicon.operators kind) (heq : p.text = q.text) : p = q := by
  have hsplit := heq
  rw [p.text_eq, q.text_eq] at hsplit
  obtain ⟨hgap, hrest⟩ := hp.gap.unique hq.gap hsplit
  obtain ⟨pgap, prs, pname, pbehind⟩ := p
  obtain ⟨qgap, qrs, qname, qbehind⟩ := q
  dsimp only at hgap hrest
  subst hgap
  cases hcall : kind.isCallable with
  | true =>
    obtain ⟨hpfit, hpname⟩ := hp.callable hcall
    obtain ⟨hqfit, hqname⟩ := hq.callable hcall
    -- the reader gives the name and what is behind it for both, and the receivers remain
    have hread := Kind.readCallable_of_receivers h hdot kind 0 hp.gap hpfit hpname
    rw [hrest, Kind.readCallable_of_receivers h hdot kind 0 hq.gap hqfit hqname] at hread
    simp only [reading, Prod.mk.injEq, NameReading.named.injEq, Cursor.mk.injEq] at hread
    obtain ⟨⟨-, rfl, -⟩, -, rfl⟩ := hread
    have hreceivers : prs = qrs := hpfit.unique hqfit (List.append_cancel_right hrest)
    rw [hreceivers]
  | false =>
    obtain ⟨hprs, hprun⟩ := hp.plain hcall
    obtain ⟨hqrs, hqrun⟩ := hq.plain hcall
    dsimp only at hprs hqrs
    subst hprs hqrs
    obtain ⟨rfl, rfl⟩ := hprun.unique hqrun hrest
    rfl

end

/-! ## Top theorem -/

/-- **Names are read by their grammar.** Where a name of any kind is read, the text splits in one way
only into blanks, receivers, a name and what is behind it. The reader follows this split: it gives the
name with the offset where it starts and stops right behind it, and the kind is the one that was asked
for, or that of a singleton method behind receivers. Only for a class, and where `<<` follows the
blanks, it gives no name and stops behind the blanks. -/
theorem readName_grammar (kind : Kind) (c : Cursor) :
    ∃ p : NameParts,
      (∀ q : NameParts, q.text = c.rest ∧ q.Fits Lexicon.julia.operators kind ↔ q = p) ∧
      kind.readName Lexicon.julia.operators c =
        (if kind = .classDef ∧ "<<".toList <+: c.rest.dropWhile Text.isBlank then
          (.anonymousClass, c.skipBlank)
        else p.reading kind c.offset) := by
  have hdot : ∀ w ∈ Lexicon.julia.operators, w.head? ≠ some '.' := by decide
  obtain ⟨p, htext, hp⟩ := Kind.exists_parts Lexicon.julia.operators kind c.rest
  refine ⟨p, ?_, ?_⟩
  · intro q
    constructor
    · rintro ⟨hqtext, hq⟩
      exact hq.unique Lexicon.julia_regular hdot hp (hqtext.trans htext.symm)
    · rintro rfl
      exact ⟨htext, hp⟩
  · have hread := Kind.readName_of_fits Lexicon.julia_regular hdot kind c.offset hp
    rw [htext] at hread
    exact hread

/-- A name behind two receivers, of which the second is empty. -/
example : Kind.function.readName Lexicon.julia.operators ⟨8, " Base. .zip!(a)".toList⟩ =
    NameParts.reading .function 8
      ⟨" ".toList, [⟨"Base".toList, " ".toList⟩, ⟨[], []⟩], "zip!".toList, "(a)".toList⟩ := by
  decide +kernel

end Tagline
