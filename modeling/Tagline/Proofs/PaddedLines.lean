import Tagline.Proofs.Padding
import Tagline.Proofs.Placed
import Tagline.Proofs.Runs

/-!
# Padded lines

A line says the same with blanks around it. It has the same control word, opens and closes the same
blocks, and defines the same name, which has only moved (read_padded). So in a scan the padded line
leaves the same state, and its tag stands further to the right by the number of blanks in front

    (scanLine state (u ++ (line ++ v))).tag = (scanLine state line).tag.map (Tag.moved u.length)
                                                                   (tag_scanLine_padded)

as long as the blanks in front do not take a marker from its place. A line that is no marker stays none
(marker?_padded), so it can be padded in any way (scan_ignores_padding).
-/

namespace Tagline

/-! ## Names of a bare and of a padded line -/

theorem Cursor.ne_nil_of_takeWhile {p : Char → Bool} {c : Cursor} (hne : c.rest.takeWhile p ≠ []) :
    c.rest ≠ [] := by
  intro hnil
  rw [hnil] at hne
  exact hne rfl

/-- The definition when so many bytes are put in front of its line. -/
def NamedAt.moved (shift : Nat) (n : NamedAt) : NamedAt := { n with offset := n.offset + shift }

/-- Two readers read the same name, and end at the same place. -/
def NameReading.Agree (shift : Nat) (p q : NameReading × Cursor) : Prop :=
  q.1.found? = p.1.found?.map (NamedAt.moved shift) ∧ Cursor.Padded shift p.2 q.2

section
variable {shift : Nat} {c d : Cursor} (hc : Cursor.Padded shift c d)

include hc

theorem Cursor.Padded.found?_named (kind : Kind) {name : Text} (hname : name ≠ [] → c.rest ≠ []) :
    (NameReading.named kind name d.offset).found? =
      (NameReading.named kind name c.offset).found?.map (NamedAt.moved shift) := by
  cases name with
  | nil => rfl
  | cons a name =>
    have hoffset := hc.offset (hname (by simp))
    simp only [NameReading.found?, Option.map_some, NamedAt.moved, hoffset]

/-- What can stand behind the name of a function is seen by both. -/
theorem Cursor.Padded.filter_peek? : d.peek?.filter isNameMark = c.peek?.filter isNameMark := by
  apply Option.ext
  intro a
  rw [Option.filter_eq_some_iff, Option.filter_eq_some_iff]
  refine and_congr_left fun hmark => hc.peek?_eq_some_iff ?_
  have hmem : a ∈ ['?', '!', '='] := by simpa [isNameMark, or_assoc] using hmark
  have hall : (['?', '!', '='].all fun b => !Text.isBlank b) = true := by decide
  simpa using List.all_eq_true.1 hall a hmem

end

theorem Kind.agree_readPlain {shift : Nat} (kind : Kind) {c d : Cursor} (hc : Cursor.Padded shift c d) :
    NameReading.Agree shift (kind.readPlain c) (kind.readPlain d) := by
  have hstart := hc.skipBlank
  have hname := hstart.takeWhile_eq kind.stopsAtPadding_admits
  have hangle : "<<".toList.isPrefixOf d.skipBlank.rest = "<<".toList.isPrefixOf c.skipBlank.rest := by
    obtain ⟨v, hv, hrest⟩ := hstart.rest
    rw [hrest]
    exact Text.isPrefixOf_append_padding hv (by decide) _
  rw [readPlain_eq, readPlain_eq, hangle, hname]
  split
  · exact ⟨rfl, hstart⟩
  · exact ⟨hstart.found?_named kind Cursor.ne_nil_of_takeWhile,
      hstart.skipWhile kind.stopsAtPadding_admits⟩

section
variable {lexicon : Lexicon} (h : lexicon.Regular) {shift : Nat}

include h

/-- A word in the bare line is read in the padded one. -/
theorem Kind.readCallable_of_padded (kind : Kind) {c d : Cursor} (hc : Cursor.Padded shift c d)
    (ho : c.skipBlank.eatAny? lexicon.operators = none)
    (hdot : (c.skipBlank.skipWhile Text.isWord).peek? ≠ some '.') :
    kind.readCallable lexicon.operators d =
      let mark := (c.skipBlank.skipWhile Text.isWord).peek?.filter isNameMark
      let behind := d.skipBlank.skipWhile Text.isWord
      (.named kind (c.skipBlank.rest.takeWhile Text.isWord ++ mark.toList) d.skipBlank.offset,
        if mark.isSome then behind.bump else behind) := by
  have hbehind := hc.skipBlank.skipWhile Text.stopsAtPadding_isWord
  have hdot' : (d.skipBlank.skipWhile Text.isWord).peek? ≠ some '.' :=
    mt (hbehind.peek?_eq_some_iff (by decide)).1 hdot
  have ho' := hc.skipBlank.eatAny?_eq_none (Lexicon.isSolid_operator h) ho
  simp only [readCallable_of_word ho' hdot', hbehind.filter_peek?,
    hc.skipBlank.takeWhile_eq Text.stopsAtPadding_isWord]

theorem Kind.agree_readCallable (kind : Kind) (c : Cursor) :
    ∀ d, Cursor.Padded shift c d → NameReading.Agree shift (kind.readCallable lexicon.operators c)
      (kind.readCallable lexicon.operators d) := by
  have hsolid := Lexicon.isSolid_operator h
  -- along the receivers of the bare line
  fun_induction readCallable kind lexicon.operators c with
  | case1 kind c start operator behind ho =>
    intro d hc
    obtain ⟨behind', ho', hbehind⟩ := hc.skipBlank.eatAny?_eq_some hsolid ho
    rw [readCallable_of_operator ho']
    refine ⟨hc.skipBlank.found?_named kind ?_, hbehind⟩
    obtain ⟨-, heat⟩ := Cursor.eatAny?_mem ho
    obtain ⟨hrest, -, -⟩ := Cursor.eat?_eq_some.1 heat
    intro hne hnil
    rw [hrest] at hnil
    exact hne (List.append_eq_nil_iff.1 hnil).1
  | case2 kind c start ho behind hdot ih =>
    intro d hc
    have hbehind := hc.skipBlank.skipWhile Text.stopsAtPadding_isWord
    have hdot' := (hbehind.peek?_eq_some_iff (by decide)).2 hdot
    rw [readCallable_of_receiver (hc.skipBlank.eatAny?_eq_none hsolid ho) hdot']
    exact ih _ hbehind.bump
  | case3 kind c start ho word behind hdot mark hmark =>
    intro d hc
    rw [readCallable_of_padded h kind hc ho hdot, hmark]
    refine ⟨hc.skipBlank.found?_named kind ?_,
      (hc.skipBlank.skipWhile Text.stopsAtPadding_isWord).bump⟩
    intro _ hnil
    obtain ⟨tail, htail⟩ := Cursor.exists_rest_of_mark hmark
    rw [hnil] at htail
    simp at htail
  | case4 kind c start ho word behind hdot hmark =>
    intro d hc
    rw [readCallable_of_padded h kind hc ho hdot, hmark]
    simp only [Option.toList_none, List.append_nil]
    exact ⟨hc.skipBlank.found?_named kind Cursor.ne_nil_of_takeWhile,
      hc.skipBlank.skipWhile Text.stopsAtPadding_isWord⟩

theorem Kind.agree_readName (kind : Kind) {c d : Cursor} (hc : Cursor.Padded shift c d) :
    NameReading.Agree shift (kind.readName lexicon.operators c) (kind.readName lexicon.operators d) := by
  unfold readName
  split
  · exact Kind.agree_readCallable h kind c d hc
  · exact Kind.agree_readPlain kind hc

/-- At the end of a line there is no name. -/
theorem Kind.readName_of_nil (kind : Kind) {c : Cursor} (hc : c.rest = []) :
    (kind.readName lexicon.operators c).1.found? = none ∧
      (kind.readName lexicon.operators c).2.rest = [] := by
  have hstart : c.skipBlank.rest = [] := by simp [Cursor.skipBlank, Cursor.skipWhile, hc]
  have hbehind : (c.skipBlank.skipWhile Text.isWord).rest = [] := by simp [Cursor.skipWhile, hstart]
  have hpeek : (c.skipBlank.skipWhile Text.isWord).peek? = none := by simp [Cursor.peek?, hbehind]
  have hops : c.skipBlank.eatAny? lexicon.operators = none := by
    rw [Cursor.eatAny?_eq_none_iff]
    intro w hw
    apply Lexicon.dropToken?_symbol_eq_none h (by simp [Lexicon.symbols, hw])
    simp [hstart]
  unfold readName
  split
  · simp [readCallable_of_word hops, hpeek, hstart, hbehind, NameReading.found?]
  · have hangle : "<<".toList.isPrefixOf ([] : Text) = false := rfl
    simp [readPlain_eq, hstart, NameReading.found?, Cursor.skipWhile]

/-! ## Headings of a bare and of a padded line -/

/-- Two readers find the same definition, and end at the same place. -/
def Heading.Agree (shift : Nat) (p q : Option Heading × Cursor) : Prop :=
  q.1.bind Heading.found? = (p.1.bind Heading.found?).map (NamedAt.moved shift) ∧
    Cursor.Padded shift p.2 q.2

namespace Lexicon

/-- A definition word at the end of the bare line may have a blank behind it in the padded one. There
is no name either way. -/
theorem agree_readHeading_of_nil {c d e f : Cursor} {kind : Kind}
    (hc : lexicon.definition? c = some (kind, e)) (hd : lexicon.definition? d = some (kind, f))
    (he : Cursor.Padded shift e f) (hnil : e.rest = []) :
    Heading.Agree shift (lexicon.readHeading c) (lexicon.readHeading d) := by
  have hend : ¬ e.peek?.any Text.isBlank = true := by simp [Cursor.peek?, hnil]
  rw [readHeading_of_not_blank hc hend]
  by_cases hblank : f.peek?.any Text.isBlank = true
  · obtain ⟨hagree, hpad⟩ := Kind.agree_readName h kind he
    obtain ⟨hnone, hrest⟩ := Kind.readName_of_nil h kind hnil
    rw [readHeading_of_blank hd hblank]
    refine ⟨?_, ?_⟩
    · rw [Option.bind_some, NameReading.found?_heading, hagree, hnone]
      rfl
    · obtain ⟨v, hv, hv'⟩ := hpad.rest
      refine ⟨⟨v, hv, ?_⟩, fun hne => absurd hnil hne⟩
      rw [hv', hrest, hnil]
  · rw [readHeading_of_not_blank hd hblank]
    exact ⟨rfl, he⟩

theorem agree_readHeading_of_ne_nil {c d e f : Cursor} {kind : Kind}
    (hc : lexicon.definition? c = some (kind, e)) (hd : lexicon.definition? d = some (kind, f))
    (he : Cursor.Padded shift e f) (hne : e.rest ≠ []) :
    Heading.Agree shift (lexicon.readHeading c) (lexicon.readHeading d) := by
  have hpeek := he.peek?_of_ne_nil hne
  by_cases hblank : e.peek?.any Text.isBlank = true
  · have hagree := Kind.agree_readName h kind he
    rw [readHeading_of_blank hc hblank, readHeading_of_blank hd (by rwa [hpeek])]
    unfold Heading.Agree
    rw [Option.bind_some, Option.bind_some, NameReading.found?_heading, NameReading.found?_heading]
    exact hagree
  · rw [readHeading_of_not_blank hc hblank, readHeading_of_not_blank hd (by rwa [hpeek])]
    exact ⟨rfl, he⟩

theorem agree_readHeading {c d : Cursor} (hc : Cursor.Padded shift c d) :
    Heading.Agree shift (lexicon.readHeading c) (lexicon.readHeading d) := by
  have hrel : Option.Rel _ (lexicon.definition? c) (lexicon.definition? d) :=
    hc.findSome?_eat? Prod.snd (isSolid_definition h)
  cases hdc : lexicon.definition? c with
  | none =>
    rw [hdc] at hrel
    rw [readHeading_of_none hdc, readHeading_of_none (eq_none_of_rel_none hrel)]
    exact ⟨rfl, hc⟩
  | some found =>
    obtain ⟨kind, e⟩ := found
    rw [hdc] at hrel
    obtain ⟨⟨_, f⟩, hdd, rfl, he⟩ := exists_of_rel_some hrel
    by_cases hnil : e.rest = []
    · exact agree_readHeading_of_nil h hdc hdd he hnil
    · exact agree_readHeading_of_ne_nil h hdc hdd he hnil

end Lexicon

/-! ## Block words of a bare and of a padded line -/

namespace Lexicon

section
variable {v : Text} (hv : Text.IsPadding v)

include hv

theorem blockWord?_append_padding (t : Text) : lexicon.blockWord? (t ++ v) = lexicon.blockWord? t := by
  have hopen : ∀ w ∈ lexicon.openers,
      (Text.dropToken? w (t ++ v)).isSome = (Text.dropToken? w t).isSome := by
    intro w hw
    exact Text.isSome_dropToken?_append_padding hv (isSolid_keyword h (opener_mem_keywords hw)) t
  have hclose := Text.isSome_dropToken?_append_padding hv (isSolid_keyword h closer_mem_keywords) t
  have hany : (lexicon.openers.any fun w => (Text.dropToken? w (t ++ v)).isSome) =
      lexicon.openers.any fun w => (Text.dropToken? w t).isSome := by
    rw [Bool.eq_iff_iff, List.any_eq_true, List.any_eq_true]
    constructor
    · rintro ⟨w, hw, hsome⟩
      exact ⟨w, hw, by rwa [← hopen w hw]⟩
    · rintro ⟨w, hw, hsome⟩
      exact ⟨w, hw, by rwa [hopen w hw]⟩
  unfold blockWord?
  rw [hany, hclose]

theorem blockWords_padding : lexicon.blockWords v = [] := by
  induction v with
  | nil => rfl
  | cons a v ih =>
    obtain ⟨hblank, -⟩ := hv a (by simp)
    rw [blockWords_cons_of_isBlank h hblank]
    exact ih fun b hb => hv b (List.mem_cons_of_mem _ hb)

theorem blockWordsFrom_append_padding (free : Bool) (t : Text) :
    lexicon.blockWordsFrom free (t ++ v) = lexicon.blockWordsFrom free t := by
  induction t generalizing free with
  | nil =>
    have hhead : ∀ a ∈ v.head?, Text.isWord a = false := by
      intro a ha
      exact Text.not_isWord_of_isBlank (hv a (List.mem_of_mem_head? ha)).1
    rw [List.nil_append, blockWordsFrom_eq_blockWords h hhead, blockWords_padding h hv]
    cases free <;> rfl
  | cons a t ih =>
    have hword := blockWord?_append_padding h hv (a :: t)
    rw [List.cons_append] at hword ⊢
    simp only [blockWordsFrom, hword, ih]

theorem blockWords_append_padding (t : Text) :
    lexicon.blockWords (t ++ v) = lexicon.blockWords t := blockWordsFrom_append_padding h hv true t

end

end Lexicon

/-! ## Lines -/

/-- The two lines say the same. -/
structure CodeLine.Agree (shift : Nat) (bare padded : CodeLine) : Prop where
  control : padded.control = bare.control
  heading : padded.heading.bind Heading.found? =
    (bare.heading.bind Heading.found?).map (NamedAt.moved shift)
  blocks : padded.blocks = bare.blocks

section
variable {line u v : Text} (hu : ∀ a ∈ u, Text.isBlank a = true) (hv : Text.IsPadding v)

include hu hv

/-- **A padded line says the same.** -/
theorem CodeLine.read_padded :
    CodeLine.Agree (Text.byteSize u) (CodeLine.read lexicon line)
      (CodeLine.read lexicon (u ++ (line ++ v))) := by
  have hstart : Cursor.Padded (Text.byteSize u) (Cursor.ofLine line).skipBlank
      (Cursor.ofLine (u ++ (line ++ v))).skipBlank := Cursor.Padded.skipBlank_ofLine hu hv
  have hsolid := Lexicon.isSolid_control h
  cases hcontrol : (Cursor.ofLine line).skipBlank.eatAny? lexicon.controls with
  | some found =>
    obtain ⟨word, d⟩ := found
    obtain ⟨d', hcontrol', hd⟩ := hstart.eatAny?_eq_some hsolid hcontrol
    obtain ⟨w, hw, hrest⟩ := hd.rest
    rw [read_of_control h hcontrol, read_of_control h hcontrol']
    refine ⟨rfl, rfl, ?_⟩
    show lexicon.blockWords d'.rest = lexicon.blockWords d.rest
    rw [hrest, Lexicon.blockWords_append_padding h hw]
  | none =>
    obtain ⟨hfound, hend⟩ := Lexicon.agree_readHeading h hstart
    obtain ⟨w, hw, hrest⟩ := hend.rest
    rw [read_of_not_control h hcontrol, read_of_not_control h (hstart.eatAny?_eq_none hsolid hcontrol)]
    refine ⟨rfl, hfound, ?_⟩
    show lexicon.blockWords _ = lexicon.blockWords _
    rw [hrest, Lexicon.blockWords_append_padding h hw]

end

end

namespace CodeLine.Agree

variable {shift : Nat} {bare padded : CodeLine} (hagree : CodeLine.Agree shift bare padded)

theorem opened_eq (code : CodeLine) :
    code.opened = ((code.heading.bind Heading.found?).map fun n => .enter (.named n.name)).toList := by
  unfold CodeLine.opened
  cases code.heading with
  | none => rfl
  | some heading => cases heading <;> rfl

include hagree

theorem lead : padded.lead = bare.lead := by
  unfold CodeLine.lead
  rw [hagree.control]

theorem changes : padded.changes = bare.changes := by
  have hopened : padded.opened = bare.opened := by
    rw [opened_eq, opened_eq, hagree.heading, Option.map_map]
    rfl
  unfold CodeLine.changes
  rw [hagree.lead, hopened, hagree.blocks]

end CodeLine.Agree

/-! ## Scanning -/

/-- The tag when so many characters are put in front of its line. -/
def Tag.moved (n : Nat) (t : Tag) : Tag :=
  { t with position := ⟨t.position.line, t.position.column + n⟩ }

theorem Position.inLine_padded (number : Nat) (u v before behind : Text) :
    Position.inLine number (u ++ ((before ++ behind) ++ v)) (Text.byteSize before + Text.byteSize u) =
      ⟨number, before.length + u.length + 1⟩ := by
  have hline : u ++ ((before ++ behind) ++ v) = (u ++ before) ++ (behind ++ v) := by simp
  have hsize : Text.byteSize before + Text.byteSize u = Text.byteSize (u ++ before) := by
    rw [Text.byteSize_append]
    omega
  rw [hline, hsize, Position.inLine_byteSize_append, List.length_append]
  congr 2
  omega

namespace Scanner

theorem bind_tag?_eq (s : Scanner) (number : Nat) (line : Text) (scopes : ScopeStack)
    (heading : Option Heading) :
    heading.bind (s.tag? number line scopes) = (heading.bind Heading.found?).bind fun n =>
      s.tag? number line scopes (.named n.kind n.name n.offset) := by
  cases heading with
  | none => rfl
  | some heading => cases heading <;> rfl

/-- The tag of a definition moves with its name. -/
theorem tag?_padded (s : Scanner) (number : Nat) (scopes : ScopeStack) {line name u v : Text}
    {kind : Kind} {offset : Nat}
    (hplace : ∃ before behind, line = before ++ (name ++ behind) ∧ Text.byteSize before = offset) :
    s.tag? number (u ++ (line ++ v)) scopes (.named kind name (offset + Text.byteSize u)) =
      (s.tag? number line scopes (.named kind name offset)).map (Tag.moved u.length) := by
  obtain ⟨before, behind, rfl, rfl⟩ := hplace
  have hcolumn : before.length + u.length + 1 = before.length + 1 + u.length := by omega
  simp only [tag?, Position.inLine_padded, Position.inLine_byteSize_append, hcolumn]
  split
  · rfl
  · rfl

variable {s : Scanner} (h : s.lexicon.Regular) {line u v : Text}
  (hu : ∀ a ∈ u, Text.isBlank a = true) (hv : Text.IsPadding v)

include h hu hv

/-- The tag of a padded line of code. -/
theorem bind_tag?_padded (number : Nat) (scopes : ScopeStack) :
    (CodeLine.read s.lexicon (u ++ (line ++ v))).heading.bind
        (s.tag? number (u ++ (line ++ v)) scopes) =
      ((CodeLine.read s.lexicon line).heading.bind (s.tag? number line scopes)).map
        (Tag.moved u.length) := by
  have hagree : CodeLine.Agree _ (CodeLine.read s.lexicon line) _ := CodeLine.read_padded h hu hv
  rw [bind_tag?_eq, bind_tag?_eq, hagree.heading]
  cases hh : (CodeLine.read s.lexicon line).heading with
  | none => rfl
  | some heading =>
    cases heading with
    | unnamed kind => rfl
    | named kind name offset => exact tag?_padded s number scopes (CodeLine.exists_before_of_heading h hh)

variable (hmarker : s.lexicon.marker? (u ++ (line ++ v)) = s.lexicon.marker? line) (state : ScanState)

include hmarker

/-- **A padded line does the same to the state.** -/
theorem state_scanLine_padded :
    (s.scanLine state (u ++ (line ++ v))).state = (s.scanLine state line).state := by
  have hagree : CodeLine.Agree _ (CodeLine.read s.lexicon line) _ := CodeLine.read_padded h hu hv
  obtain ⟨number, scopes, mode⟩ := state
  cases hline : s.lexicon.marker? line with
  | some marker => cases marker <;> simp [scanLine, hmarker, hline]
  | none =>
    cases mode with
    | comment => simp [scanLine, hmarker, hline]
    | code =>
      rw [(scanLine_of_read hline rfl).1, (scanLine_of_read (hmarker.trans hline) rfl).1,
        hagree.changes]

/-- **A padded line gives the same tag**, further to the right. -/
theorem tag_scanLine_padded :
    (s.scanLine state (u ++ (line ++ v))).tag =
      (s.scanLine state line).tag.map (Tag.moved u.length) := by
  have hagree : CodeLine.Agree _ (CodeLine.read s.lexicon line) _ := CodeLine.read_padded h hu hv
  obtain ⟨number, scopes, mode⟩ := state
  cases hline : s.lexicon.marker? line with
  | some marker => cases marker <;> simp [scanLine, hmarker, hline]
  | none =>
    cases mode with
    | comment => simp [scanLine, hmarker, hline]
    | code =>
      rw [(scanLine_of_read hline rfl).2, (scanLine_of_read (hmarker.trans hline) rfl).2,
        hagree.lead, bind_tag?_padded h hu hv]

end Scanner

/-! ## Markers -/

theorem Lexicon.marker?_append_padding {lexicon : Lexicon} (h : lexicon.Regular) {v : Text}
    (hv : Text.IsPadding v) (line : Text) : lexicon.marker? (line ++ v) = lexicon.marker? line := by
  have hstart : Text.isSolid lexicon.commentStart = true :=
    h.isSolid_symbol _ (by simp [Lexicon.symbols])
  have hend : Text.isSolid lexicon.commentEnd = true :=
    h.isSolid_symbol _ (by simp [Lexicon.symbols])
  unfold Lexicon.marker?
  rw [Text.isSome_dropToken?_append_padding hv hstart, Text.isSome_dropToken?_append_padding hv hend]

/-- A line that starts with a blank is no marker. -/
theorem Lexicon.marker?_of_isBlank {lexicon : Lexicon} (h : lexicon.Regular) {a : Char} {t : Text}
    (ha : Text.isBlank a = true) : lexicon.marker? (a :: t) = none := by
  have hhead : ∀ b ∈ (a :: t).head?, Text.isBlank b = true ∨ Text.isWord b = true := by
    intro b hb
    obtain rfl : a = b := by simpa using hb
    exact Or.inl ha
  have hstart : Text.dropToken? lexicon.commentStart (a :: t) = none :=
    Lexicon.dropToken?_symbol_eq_none h (by simp [Lexicon.symbols]) hhead
  have hend : Text.dropToken? lexicon.commentEnd (a :: t) = none :=
    Lexicon.dropToken?_symbol_eq_none h (by simp [Lexicon.symbols]) hhead
  simp [Lexicon.marker?, hstart, hend]

/-- Blanks around a line make no marker of it. -/
theorem Lexicon.marker?_padded {lexicon : Lexicon} (h : lexicon.Regular) {line u v : Text}
    (hu : ∀ a ∈ u, Text.isBlank a = true) (hv : Text.IsPadding v)
    (hline : lexicon.marker? line = none) : lexicon.marker? (u ++ (line ++ v)) = none := by
  cases u with
  | nil => rw [List.nil_append, Lexicon.marker?_append_padding h hv, hline]
  | cons a u => exact Lexicon.marker?_of_isBlank h (hu a (by simp))

/-! ## Padding behind the lines of a run -/

namespace Scanner

section
variable {s : Scanner} (h : s.lexicon.Regular)

include h

/-- Padding behind a line does nothing at all. -/
theorem scanLine_append_padding {v : Text} (hv : Text.IsPadding v) (state : ScanState) (line : Text) :
    (s.scanLine state (line ++ v)).state = (s.scanLine state line).state ∧
      (s.scanLine state (line ++ v)).tag = (s.scanLine state line).tag := by
  have hu : ∀ a ∈ ([] : Text), Text.isBlank a = true := by simp
  have hmarker : s.lexicon.marker? ([] ++ (line ++ v)) = s.lexicon.marker? line :=
    Lexicon.marker?_append_padding h hv line
  refine ⟨state_scanLine_padded h hu hv hmarker state, ?_⟩
  have htag := tag_scanLine_padded h hu hv hmarker state
  rw [List.nil_append] at htag
  rw [htag]
  cases (s.scanLine state line).tag <;> rfl

/-- **Padding behind the lines** changes neither the tags nor the state behind them. -/
theorem run_append_padding {α : Type} {bare padded : α → Text}
    (hpad : ∀ a, ∃ v, Text.IsPadding v ∧ padded a = bare a ++ v) (state : ScanState) (l : List α) :
    s.tagsFrom state (l.map padded) = s.tagsFrom state (l.map bare) ∧
      s.stateAfter state (l.map padded) = s.stateAfter state (l.map bare) := by
  induction l generalizing state with
  | nil => exact ⟨rfl, rfl⟩
  | cons a l ih =>
    obtain ⟨v, hv, heq⟩ := hpad a
    obtain ⟨hstate, htag⟩ := scanLine_append_padding h hv state (bare a)
    obtain ⟨htags, hbehind⟩ := ih (s.scanLine state (bare a)).state
    simp only [List.map_cons, tagsFrom_cons, stateAfter_cons, heq, hstate, htag]
    exact ⟨by rw [htags], hbehind⟩

end

/-! ## Top theorem -/

/-- **Indentation and trailing blanks do not count.** Take a line that is no marker, in whatever state.
With blanks in front of it, and behind it blanks other than a space, it leaves the same state: the
number of lines, the open scopes and the mode. It gives a tag exactly if the bare line does, and the
two tags differ in nothing but the column, by the number of characters in front. -/
theorem scan_ignores_padding (config : Config) (state : ScanState) {line u v : Text}
    (hline : Lexicon.julia.marker? line = none) (hu : ∀ a ∈ u, Text.isBlank a = true)
    (hv : Text.IsPadding v) :
    let s : Scanner := { config }
    (s.scanLine state (u ++ line ++ v)).state = (s.scanLine state line).state ∧
      (s.scanLine state (u ++ line ++ v)).tag =
        (s.scanLine state line).tag.map (Tag.moved u.length) := by
  intro s
  have hmarker : s.lexicon.marker? (u ++ (line ++ v)) = s.lexicon.marker? line := by
    rw [hline]
    exact Lexicon.marker?_padded Lexicon.julia_regular hu hv hline
  rw [List.append_assoc]
  constructor
  · exact state_scanLine_padded Lexicon.julia_regular hu hv hmarker state
  · exact tag_scanLine_padded Lexicon.julia_regular hu hv hmarker state

/-- A singleton method that is indented twice, with a carriage return right behind its mark. -/
theorem scan_ignores_padding_receiver :
    let state : ScanState := ⟨4, [.anonymous, .named "M".toList], .code⟩
    let line := "function Größe.set!".toList
    let u := "\u3000\t".toList
    let v := "\r\u00a0".toList
    let t : Tag := ⟨"set!".toList, .singletonMethod, ⟨5, 16⟩, some (.ofPath "M".toList)⟩
    (scanLine {} state line).tag = some t ∧
      (scanLine {} state (u ++ line ++ v)).tag = some (t.moved 2) ∧
      (scanLine {} state (u ++ line ++ v)).state.scopes =
        [.named "set!".toList, .anonymous, .named "M".toList] := by
  intro state line u v t
  have hline : Lexicon.julia.marker? line = none := by decide +kernel
  have hblank : u.all Text.isBlank = true := by decide +kernel
  have hu : ∀ a ∈ u, Text.isBlank a = true := List.all_eq_true.1 hblank
  have hpadding : v.all (fun a => Text.isBlank a && a != ' ') = true := by decide +kernel
  have hv : Text.IsPadding v := by
    intro a ha
    simpa using List.all_eq_true.1 hpadding a ha
  obtain ⟨hstate, htag⟩ := scan_ignores_padding {} state hline hu hv
  have hbare : (scanLine {} state line).tag = some t := by decide +kernel
  refine ⟨hbare, ?_, ?_⟩
  · rw [htag, hbare]
    rfl
  · rw [hstate]
    decide +kernel

end Scanner

/-- A space is different, because it can belong to a title. -/
example : ((({} : Scanner).scanLine {} "describe x ".toList).tag.map Tag.name) = some "x ".toList := by
  decide +kernel

end Tagline
