import Tagline.Proofs.Names
import Tagline.Proofs.Runs

/-!
# Forms of lines

The lines of which a well-formed source consists: plain lines, lines that start a definition, lines
that start with a control word, and lines that close a block. Each form is a structure that holds the
parts of the line and what has to be true of them. For each of them, what the line says is read off
its parts:

    read head.text = ⟨false, some (.named kind name offset), []⟩   (DefinitionLine.read_text)
    read head.text = ⟨true, none, []⟩                              (ControlLine.read_text)
    read close.text = ⟨false, none, [.leave]⟩                      (ClosingLine.read_text)
-/

namespace Tagline

/-! ## Forms -/

section
variable (lexicon : Lexicon)

/-- A line that is no marker and starts with no keyword, with what its block words do. -/
structure PlainLine (changes : List ScopeChange) where
  text : Text
  not_marker : lexicon.marker? text = none
  no_keyword : ∀ w ∈ lexicon.controls ++ lexicon.definitions.map (·.1),
    Text.dropToken? w (text.dropWhile Text.isBlank) = none
  blockWords_eq : lexicon.blockWords (text.dropWhile Text.isBlank) = changes

/-- A line that starts a definition with a name of word characters. -/
structure DefinitionLine where
  indent : Text
  word : Text
  kind : Kind
  gap : Text
  name : Text
  tail : Text
  isBlank_indent : ∀ a ∈ indent, Text.isBlank a = true
  definition : (word, kind) ∈ lexicon.definitions
  gap_ne_nil : gap ≠ []
  isBlank_gap : ∀ a ∈ gap, Text.isBlank a = true
  name_ne_nil : name ≠ []
  isWord_name : ∀ a ∈ name, Text.isWord a = true
  tail_head : ∀ a ∈ tail.head?, a = '('
  blockWords_tail : lexicon.blockWords tail = []

structure ControlLine where
  indent : Text
  word : Text
  tail : Text
  isBlank_indent : ∀ a ∈ indent, Text.isBlank a = true
  control : word ∈ lexicon.controls
  endsToken_tail : Text.endsToken tail = true
  blockWords_tail : lexicon.blockWords tail = []

structure ClosingLine where
  indent : Text
  isBlank_indent : ∀ a ∈ indent, Text.isBlank a = true

end

variable {lexicon : Lexicon}

namespace DefinitionLine

variable (head : DefinitionLine lexicon)

def before : Text := head.indent ++ head.word ++ head.gap

def text : Text := head.before ++ head.name ++ head.tail

end DefinitionLine

def ControlLine.text (head : ControlLine lexicon) : Text := head.indent ++ head.word ++ head.tail

def ClosingLine.text (close : ClosingLine) (lexicon : Lexicon) : Text :=
  close.indent ++ lexicon.closer

/-! ## What the lines say -/

section
variable (h : lexicon.Regular) {indent word t : Text} (hindent : ∀ a ∈ indent, Text.isBlank a = true)
  (hword : word ∈ lexicon.keywords)

include h hindent hword

/-- An indented keyword is no marker. -/
theorem Lexicon.marker?_of_keyword : lexicon.marker? (indent ++ (word ++ t)) = none := by
  have hhead : ∀ a ∈ (indent ++ (word ++ t)).head?, Text.isBlank a = true ∨ Text.isWord a = true := by
    cases indent with
    | nil =>
      intro a ha
      exact Or.inr (Text.isWord_head?_append (h.keyword_ne_nil _ hword) (h.isWord_keyword _ hword) a ha)
    | cons b indent =>
      intro a ha
      obtain rfl : b = a := by simpa using ha
      exact Or.inl (hindent b (by simp))
  have hstart := dropToken?_symbol_eq_none h (w := lexicon.commentStart) (by simp [symbols]) hhead
  have hend := dropToken?_symbol_eq_none h (w := lexicon.commentEnd) (by simp [symbols]) hhead
  simp [marker?, hstart, hend]

theorem Cursor.skipBlank_of_keyword :
    (Cursor.ofLine (indent ++ (word ++ t))).skipBlank = ⟨Text.byteSize indent, word ++ t⟩ := by
  have hskip := Cursor.skipWhile_append (p := Text.isBlank) (u := indent) (t := word ++ t) hindent
    (fun a ha => Text.not_isBlank_of_isWord
      (Text.isWord_head?_append (h.keyword_ne_nil _ hword) (h.isWord_keyword _ hword) a ha)) 0
  rw [Nat.zero_add] at hskip
  exact hskip

/-- Where a keyword stands that is no control word, no control word stands. -/
theorem Cursor.eatAny?_controls_eq_none (hnot : word ∉ lexicon.controls) (ht : Text.endsToken t = true) :
    (Cursor.ofLine (indent ++ (word ++ t))).skipBlank.eatAny? lexicon.controls = none := by
  rw [skipBlank_of_keyword h hindent hword, Cursor.eatAny?_eq_none_iff]
  intro w hw
  apply Lexicon.dropToken?_keyword_eq_none h (Lexicon.control_mem_keywords hw) hword ht
  rintro rfl
  exact hnot hw

end

theorem PlainLine.read_text (h : lexicon.Regular) {changes : List ScopeChange}
    (plain : PlainLine lexicon changes) :
    CodeLine.read lexicon plain.text = ⟨false, none, changes⟩ := by
  have hcontrol : (Cursor.ofLine plain.text).skipBlank.eatAny? lexicon.controls = none := by
    rw [Cursor.eatAny?_eq_none_iff]
    intro w hw
    exact plain.no_keyword w (List.mem_append_left _ hw)
  have hheading : lexicon.readHeading (Cursor.ofLine plain.text).skipBlank =
      (none, (Cursor.ofLine plain.text).skipBlank) :=
    Lexicon.readHeading_eq_none fun w hw => plain.no_keyword w (List.mem_append_right _ hw)
  rw [CodeLine.read_of_not_control h hcontrol, hheading]
  simp only [CodeLine.mk.injEq, true_and]
  exact plain.blockWords_eq

theorem DefinitionLine.text_eq (head : DefinitionLine lexicon) :
    head.text = head.indent ++ (head.word ++ (head.gap ++ (head.name ++ head.tail))) := by
  simp only [text, before, List.append_assoc]

theorem DefinitionLine.read_text (h : lexicon.Regular) (head : DefinitionLine lexicon) :
    CodeLine.read lexicon head.text =
      ⟨false, some (.named head.kind head.name (Text.byteSize head.before)), []⟩ := by
  have hmem : head.word ∈ lexicon.definitions.map (·.1) := List.mem_map_of_mem head.definition
  have hword := Lexicon.definition_mem_keywords hmem
  have hnot : head.word ∉ lexicon.controls := fun hc => h.control_not_definition _ hc hmem
  have hblank : (head.gap ++ (head.name ++ head.tail)).head?.any Text.isBlank = true := by
    obtain ⟨a, gap, hgap⟩ := List.exists_cons_of_ne_nil head.gap_ne_nil
    simp [hgap, head.isBlank_gap a (by simp [hgap])]
  have hend := Text.endsToken_of_isBlank hblank
  have hheading := Lexicon.readHeading_of_definition h
    (c := (Cursor.ofLine head.text).skipBlank) head.definition
    (by rw [head.text_eq, Cursor.skipBlank_of_keyword h head.isBlank_indent hword]) hblank
    (Kind.readName_of_isWord head.kind _ head.isBlank_gap head.name_ne_nil head.isWord_name
      head.tail_head h) head.name_ne_nil
  have hcontrol := Cursor.eatAny?_controls_eq_none h head.isBlank_indent hword hnot hend
  rw [← head.text_eq] at hcontrol
  rw [CodeLine.read_of_not_control h hcontrol, hheading, head.blockWords_tail, head.text_eq,
    Cursor.skipBlank_of_keyword h head.isBlank_indent hword]
  simp [before, Nat.add_assoc]

theorem ControlLine.read_text (h : lexicon.Regular) (head : ControlLine lexicon) :
    CodeLine.read lexicon head.text = ⟨true, none, []⟩ := by
  have hword := Lexicon.control_mem_keywords head.control
  have hcontrol := Cursor.eatAny?_of_token (Lexicon.isSolid_control h)
    (c := (Cursor.ofLine (head.indent ++ (head.word ++ head.tail))).skipBlank) head.control
    (by rw [Cursor.skipBlank_of_keyword h head.isBlank_indent hword]) head.endsToken_tail
  rw [text, List.append_assoc, CodeLine.read_of_control h hcontrol, head.blockWords_tail]

theorem ClosingLine.read_text (h : lexicon.Regular) (close : ClosingLine) :
    CodeLine.read lexicon (close.text lexicon) = ⟨false, none, [.leave]⟩ := by
  have hword : lexicon.closer ∈ lexicon.keywords := Lexicon.closer_mem_keywords
  have honly := h.closer_only_closes
  simp only [List.mem_append, not_or] at honly
  obtain ⟨⟨hnot, hdef⟩, -⟩ := honly
  have hstart := Cursor.skipBlank_of_keyword (t := []) h close.isBlank_indent hword
  have hcontrol := Cursor.eatAny?_controls_eq_none (t := []) h close.isBlank_indent hword hnot rfl
  have hheading : lexicon.readHeading ⟨Text.byteSize close.indent, lexicon.closer ++ []⟩ =
      (none, ⟨Text.byteSize close.indent, lexicon.closer ++ []⟩) := by
    apply Lexicon.readHeading_eq_none
    intro w hw
    apply Lexicon.dropToken?_keyword_eq_none h (Lexicon.definition_mem_keywords hw) hword rfl
    rintro rfl
    exact hdef hw
  rw [text, ← List.append_nil lexicon.closer, CodeLine.read_of_not_control h hcontrol, hstart, hheading]
  simp only [List.append_nil, Lexicon.blockWords_closer h]

end Tagline
