import Tagline.Line.Code
import Tagline.Proofs.BlockWords

/-!
# The start of a line

A line of code starts with a control word, with a definition word, or with neither. Behind a control
word no definition word can stand, because a token ends there (read_of_control). So the definition of
a line follows its indentation, and a name is read only where a blank stands behind the definition
word (readHeading_eq_named).
-/

namespace Tagline

/-! ## Definitions -/

/-- A definition that has a name, with the offset where the name starts. -/
structure NamedAt where
  kind : Kind
  name : Text
  offset : Nat

/-- The heading of what is read behind a word for definitions of the kind. -/
def NameReading.heading (kind : Kind) : NameReading → Heading
  | .anonymousClass => .unnamed kind
  | .named _ [] _ => .unnamed kind
  | .named effective (a :: name) offset => .named effective (a :: name) offset

/-- The definition that is read, if its name is not empty. -/
def NameReading.found? : NameReading → Option NamedAt
  | .anonymousClass => none
  | .named _ [] _ => none
  | .named kind (a :: name) offset => some ⟨kind, a :: name, offset⟩

def Heading.found? : Heading → Option NamedAt
  | .unnamed _ => none
  | .named kind name offset => some ⟨kind, name, offset⟩

/-- The kind of the definition word at the cursor, and the cursor behind it. -/
def Lexicon.definition? (lexicon : Lexicon) (c : Cursor) : Option (Kind × Cursor) :=
  lexicon.definitions.findSome? fun (word, kind) => (c.eat? word).map (kind, ·)

theorem NameReading.found?_heading (kind : Kind) (reading : NameReading) :
    (reading.heading kind).found? = reading.found? := by
  cases reading with
  | anonymousClass => rfl
  | named k name offset => cases name <;> rfl

theorem NameReading.found?_eq_some {reading : NameReading} {n : NamedAt} :
    reading.found? = some n ↔ reading = .named n.kind n.name n.offset ∧ n.name ≠ [] := by
  cases reading with
  | anonymousClass => simp [found?]
  | named kind name offset =>
    cases name with
    | nil =>
      simp only [found?, named.injEq]
      constructor
      · intro hnone
        simp at hnone
      · rintro ⟨⟨-, hname, -⟩, hne⟩
        exact absurd hname.symm hne
    | cons a name =>
      simp only [found?, Option.some.injEq, named.injEq]
      constructor
      · rintro rfl
        exact ⟨⟨rfl, rfl, rfl⟩, List.cons_ne_nil a name⟩
      · rintro ⟨⟨rfl, hname, rfl⟩, -⟩
        rw [hname]

namespace Lexicon

section
variable {lexicon : Lexicon} {c d : Cursor} {kind : Kind}

/-! ## The definition word -/

theorem mem_of_definition? (hd : lexicon.definition? c = some (kind, d)) :
    ∃ word, (word, kind) ∈ lexicon.definitions ∧ c.eat? word = some d := by
  obtain ⟨⟨word, k⟩, hmem, hfound⟩ := List.exists_of_findSome?_eq_some hd
  obtain ⟨e, he, hpair⟩ := Option.map_eq_some_iff.1 hfound
  simp only [Prod.mk.injEq] at hpair
  obtain ⟨rfl, rfl⟩ := hpair
  exact ⟨word, hmem, he⟩

theorem definition?_eq_none
    (hnone : ∀ w ∈ lexicon.definitions.map (·.1), Text.dropToken? w c.rest = none) :
    lexicon.definition? c = none := by
  unfold definition?
  rw [List.findSome?_eq_none_iff]
  rintro ⟨word, kind⟩ hmem
  simp [Cursor.eat?_eq_none_iff.2 (hnone word (List.mem_map_of_mem hmem))]

/-- The definition word that stands at a cursor is found. -/
theorem definition?_of_token (h : lexicon.Regular) {word t : Text}
    (hdef : (word, kind) ∈ lexicon.definitions) (hc : c.rest = word ++ t)
    (ht : Text.endsToken t = true) :
    lexicon.definition? c = some (kind, ⟨c.offset + Text.byteSize word, t⟩) := by
  have hkey : word ∈ lexicon.keywords := definition_mem_keywords (List.mem_map_of_mem hdef)
  have heat : c.eat? word = some ⟨c.offset + Text.byteSize word, t⟩ :=
    Cursor.eat?_eq_some.2 ⟨hc, ht, rfl⟩
  cases hfound : lexicon.definition? c with
  | none =>
    have hnone := List.findSome?_eq_none_iff.1 hfound _ hdef
    simp [heat] at hnone
  | some found =>
    obtain ⟨k, d⟩ := found
    obtain ⟨v, hmem, hd⟩ := mem_of_definition? hfound
    have hv : v ∈ lexicon.keywords := definition_mem_keywords (List.mem_map_of_mem hmem)
    -- tokens are unique, and so is the kind of a word
    have hvw : v = word := by
      obtain ⟨hr, hend, -⟩ := Cursor.eat?_eq_some.1 hd
      exact Text.eq_of_dropToken? (isSolid_keyword h hv) (isSolid_keyword h hkey)
        (Text.dropToken?_eq_some.2 ⟨hr, hend⟩) (Text.dropToken?_eq_some.2 ⟨hc, ht⟩)
    subst hvw
    rw [heat] at hd
    have hk : k = kind := h.definition_kind _ hmem _ hdef rfl
    rw [← Option.some.inj hd, hk]

/-! ## The heading -/

theorem readHeading_of_none (hd : lexicon.definition? c = none) :
    lexicon.readHeading c = (none, c) := by
  unfold definition? at hd
  unfold readHeading
  simp only [hd]

theorem readHeading_of_blank (hd : lexicon.definition? c = some (kind, d))
    (hblank : d.peek?.any Text.isBlank = true) :
    lexicon.readHeading c = (some ((kind.readName lexicon.operators d).1.heading kind),
      (kind.readName lexicon.operators d).2) := by
  unfold definition? at hd
  unfold readHeading
  simp only [hd, hblank, if_true]
  rcases kind.readName lexicon.operators d with ⟨reading, e⟩
  cases reading with
  | anonymousClass => rfl
  | named k name offset => cases name <;> rfl

theorem readHeading_of_not_blank (hd : lexicon.definition? c = some (kind, d))
    (hblank : ¬ d.peek?.any Text.isBlank = true) : lexicon.readHeading c = (none, d) := by
  unfold definition? at hd
  unfold readHeading
  simp only [hd, hblank]
  rfl

/-- The definition at a cursor: its word, what is read behind it, and its name. -/
theorem readHeading_eq_named {name : Text} {offset : Nat}
    (hn : (lexicon.readHeading c).1 = some (.named kind name offset)) :
    ∃ word wordKind d, (word, wordKind) ∈ lexicon.definitions ∧ c.eat? word = some d ∧
      d.peek?.any Text.isBlank = true ∧
      (wordKind.readName lexicon.operators d).1 = .named kind name offset ∧ name ≠ [] := by
  cases hd : lexicon.definition? c with
  | none =>
    rw [readHeading_of_none hd] at hn
    simp at hn
  | some found =>
    obtain ⟨wordKind, d⟩ := found
    by_cases hblank : d.peek?.any Text.isBlank = true
    · obtain ⟨word, hmem, heat⟩ := mem_of_definition? hd
      rw [readHeading_of_blank hd hblank, Option.some.injEq] at hn
      have hfound : (wordKind.readName lexicon.operators d).1.found? = some ⟨kind, name, offset⟩ := by
        rw [← NameReading.found?_heading wordKind, hn]
        rfl
      obtain ⟨hread, hne⟩ := NameReading.found?_eq_some.1 hfound
      exact ⟨word, wordKind, d, hmem, heat, hblank, hread, hne⟩
    · rw [readHeading_of_not_blank hd hblank] at hn
      simp at hn

theorem readHeading_eq_none
    (hnone : ∀ w ∈ lexicon.definitions.map (·.1), Text.dropToken? w c.rest = none) :
    lexicon.readHeading c = (none, c) := readHeading_of_none (definition?_eq_none hnone)

/-- Where no word starts, no definition starts. -/
theorem readHeading_of_head (h : lexicon.Regular) (hc : ∀ a ∈ c.rest.head?, Text.isWord a = false) :
    lexicon.readHeading c = (none, c) :=
  readHeading_eq_none fun _ hw => dropToken?_eq_none_of_head h (definition_mem_keywords hw) hc

theorem readHeading_of_definition (h : lexicon.Regular) {word t name : Text} {k : Kind}
    {offset : Nat} (hdef : (word, kind) ∈ lexicon.definitions) (hc : c.rest = word ++ t)
    (ht : t.head?.any Text.isBlank = true)
    (hread : kind.readName lexicon.operators ⟨c.offset + Text.byteSize word, t⟩ =
      (.named k name offset, d)) (hne : name ≠ []) :
    lexicon.readHeading c = (some (.named k name offset), d) := by
  have hend : Text.endsToken t = true := Text.endsToken_of_isBlank ht
  obtain ⟨a, rest, rfl⟩ := List.exists_cons_of_ne_nil hne
  rw [readHeading_of_blank (definition?_of_token h hdef hc hend) ht, hread]
  rfl

end

end Lexicon

namespace CodeLine

/-- The name of a definition is not empty. -/
theorem name_ne_nil_of_heading {lexicon : Lexicon} {line name : Text} {kind : Kind} {offset : Nat}
    (hh : (CodeLine.read lexicon line).heading = some (.named kind name offset)) : name ≠ [] := by
  obtain ⟨_, _, _, _, _, _, _, hne⟩ := Lexicon.readHeading_eq_named hh
  exact hne

variable {lexicon : Lexicon} (h : lexicon.Regular) {line : Text}

include h

/-- A line that starts with a control word defines nothing. -/
theorem read_of_control {word : Text} {d : Cursor}
    (hd : (Cursor.ofLine line).skipBlank.eatAny? lexicon.controls = some (word, d)) :
    CodeLine.read lexicon line = ⟨true, none, lexicon.blockWords d.rest⟩ := by
  obtain ⟨-, heat⟩ := Cursor.eatAny?_mem hd
  obtain ⟨-, hend, -⟩ := Cursor.eat?_eq_some.1 heat
  unfold CodeLine.read
  simp only [hd, Option.map_some, Option.getD_some, Option.isSome_some,
    Lexicon.readHeading_of_head h (Text.not_isWord_of_endsToken hend), Lexicon.blockChanges_fst h]

theorem read_of_not_control (hd : (Cursor.ofLine line).skipBlank.eatAny? lexicon.controls = none) :
    CodeLine.read lexicon line =
      ⟨false, (lexicon.readHeading (Cursor.ofLine line).skipBlank).1,
        lexicon.blockWords (lexicon.readHeading (Cursor.ofLine line).skipBlank).2.rest⟩ := by
  unfold CodeLine.read
  simp only [hd, Option.map_none, Option.getD_none, Option.isSome_none, Lexicon.blockChanges_fst h]

/-- The definition of a line stands right behind its indentation. -/
theorem readHeading_of_heading {heading : Heading}
    (hh : (CodeLine.read lexicon line).heading = some heading) :
    (lexicon.readHeading (Cursor.ofLine line).skipBlank).1 = some heading := by
  cases hd : (Cursor.ofLine line).skipBlank.eatAny? lexicon.controls with
  | none => rwa [read_of_not_control h hd] at hh
  | some found =>
    obtain ⟨word, d⟩ := found
    rw [read_of_control h hd] at hh
    simp at hh

end CodeLine

end Tagline
