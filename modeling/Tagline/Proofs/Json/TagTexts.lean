import Tagline.Proofs.Json.Numbers
import Tagline.Proofs.Json.Records

/-!
# Tags in JSON

Tags are read back as they were written, in a list or alone

    decode (list tag) (Tag.listToJson ts) = .ok ts                  (decode_listToJson)
    decode tag t.toJson = .ok t                                     (decode_toJson)

for all names, labels and paths, and for all positions that fit into 64 bits (tags_read_back). A tag
without a scope is written without this member and read without it, so it is not mixed up with a tag
whose scope has an empty path.
-/

namespace Tagline

/-! ## Definitions -/

/-- Whether the line and the column fit into 64 bits. -/
def Position.Fits (p : Position) : Prop :=
  p.line ≤ Json.naturalLimit ∧ p.column ≤ Json.naturalLimit

instance (p : Position) : Decidable p.Fits := inferInstanceAs (Decidable (_ ∧ _))

open Json Json.Decoder

/-! ## Parts of a tag -/

theorem Kind.takes_toJson (k : Kind) : Json.Decoder.kind.Takes k.toJson k := by
  intro rest
  have hstring := string_takes k.key rest
  have hkey : kindOfKey k.key rest = .ok (k, rest) := by
    rw [kindOfKey, Kind.ofKey?_key]
    rfl
  unfold Kind.toJson
  rw [quote, List.cons_append, Input.prepend_cons _ _ (by decide)] at hstring ⊢
  rw [Json.Decoder.kind, bind_of_ok (token_push _ (by decide)), if_pos rfl, bind_of_ok hstring, hkey]

theorem Position.takes_toJson {p : Position} (hp : p.Fits) : position.Takes p.toJson p := by
  -- which field a key stands for is evaluated
  have hline := (natural_reads hp.1).map fun n => (some n, (none : Option Nat))
  have hcolumn := (natural_reads hp.2).map fun n => (some p.line, some n)
  exact record_takes (.cons rfl hline (.cons rfl hcolumn (.nil _))) rfl

theorem TagScope.takes_toJson (s : TagScope) : tagScope.Takes s.toJson s := by
  have hlabel := (string_takes s.kindLabel).reads.map fun t => (some t, (none : Option Text))
  have hpath := (string_takes s.path).reads.map fun t => (some s.kindLabel, some t)
  exact record_takes (.cons rfl hlabel (.cons rfl hpath (.nil _))) rfl

/-- The scope is read if it is written, and is missing if it is not. -/
theorem Tag.takes_toJson {t : Tag} (ht : t.position.Fits) : tag.Takes t.toJson t := by
  obtain ⟨name, kind, position, scope⟩ := t
  have hname := (string_takes name).reads.map fun v => ({ name := some v } : TagMembers)
  have hkind := kind.takes_toJson.reads.map fun v => ({ name := some name, kind := some v } : TagMembers)
  have hposition := (Position.takes_toJson ht).reads.map fun v =>
    ({ name := some name, kind := some kind, position := some v } : TagMembers)
  cases scope with
  | none => exact record_takes (.cons rfl hname (.cons rfl hkind (.cons rfl hposition (.nil _)))) rfl
  | some scope =>
    have hscope := (optional_takes scope.takes_toJson).reads.map fun v =>
      ({ name := some name, kind := some kind, position := some position, scope := some v } : TagMembers)
    exact record_takes (.cons rfl hname (.cons rfl hkind (.cons rfl hposition
      (.cons rfl hscope (.nil _))))) rfl

/-! ## Top theorem -/

theorem decode_toJson {t : Tag} (ht : t.position.Fits) : decode tag t.toJson = .ok t :=
  decode_of_takes (Tag.takes_toJson ht)

theorem decode_listToJson {ts : List Tag} (hts : ∀ t ∈ ts, t.position.Fits) :
    decode (list tag) (Tag.listToJson ts) = .ok ts := by
  refine decode_of_takes (list_takes fun t ht => ?_)
  exact ⟨_, rfl, (Tag.takes_toJson (hts t ht)).reads⟩

/-- **Tags** are read back as they were written, in a list or alone, and a tag without a scope is told
from one whose scope has an empty path. -/
theorem tags_read_back (ts : List Tag) (t : Tag) (hts : ∀ u ∈ ts, u.position.Fits)
    (ht : t.position.Fits) :
    decode (list tag) (Tag.listToJson ts) = .ok ts ∧
      decode tag t.toJson = .ok t ∧
      ∀ label, decode tag { t with scope := none }.toJson ≠
        decode tag { t with scope := some ⟨label, []⟩ }.toJson := by
  refine ⟨decode_listToJson hts, decode_toJson ht, fun label heq => ?_⟩
  have hnone : decode tag { t with scope := none }.toJson = .ok { t with scope := none } :=
    decode_toJson ht
  have hempty : decode tag { t with scope := some ⟨label, []⟩ }.toJson =
      .ok { t with scope := some ⟨label, []⟩ } := decode_toJson ht
  rw [hnone, hempty, Except.ok.injEq, Tag.mk.injEq] at heq
  cases heq.2.2.2

/-- A name that has to be escaped, in the last place that fits into 64 bits. -/
theorem tags_read_back_escaped :
    let t : Tag := ⟨"\"\\\n\x01é😀".toList, .macroDef, ⟨0xFFFFFFFFFFFFFFFF, 0xFFFFFFFFFFFFFFFF⟩,
      some (.ofPath [])⟩
    decode (list tag) (Tag.listToJson [t, { t with scope := none }]) =
        .ok [t, { t with scope := none }] ∧
      decode tag t.toJson = .ok t ∧
      ∀ label, decode tag { t with scope := none }.toJson ≠
        decode tag { t with scope := some ⟨label, []⟩ }.toJson :=
  tags_read_back _ _ (by decide) (by decide)

end Tagline
