import Tagline.Config
import Tagline.Error
import Tagline.Json.Record
import Tagline.Source
import Tagline.Tag

/-!
# Tags and configurations in JSON

A kind is written as its key, a position, a scope and a tag as objects without any space. A tag without
a scope is written without that member. A reader also takes a kind as an object whose only member has
the key of the kind and the value null.
-/

namespace Tagline.Json

namespace Decoder

def kindOfKey (key : Text) : Decoder Kind :=
  match Kind.ofKey? key with
  | some k => return k
  | none => throw .mismatched

/-- Reads a kind. A member whose key is no string is malformed, and not a mismatch. -/
def kind : Decoder Kind := do
  let b ← token
  if b = ascii '"' then kindOfKey (← string)
  else if b = ascii '\x7b' then
    drop
    expect (ascii '"')
    let k ← kindOfKey (← stringTail)
    colon
    null
    expect (ascii '\x7d')
    return k
  else throw .malformed

def position : Decoder Position :=
  record
    (fun key (line?, column?) =>
      if key = "line".toList then .once line? natural fun n => (some n, column?)
      else if key = "column".toList then .once column? natural fun n => (line?, some n)
      else .unknown)
    ((none, none) : Option Nat × Option Nat)
    (fun (line?, column?) => do return ⟨← line?, ← column?⟩)
    (do return ⟨← element true natural, ← element false natural⟩)

def tagScope : Decoder TagScope :=
  record
    (fun key (kindLabel?, path?) =>
      if key = "kind_label".toList then .once kindLabel? string fun t => (some t, path?)
      else if key = "path".toList then .once path? string fun t => (kindLabel?, some t)
      else .unknown)
    ((none, none) : Option Text × Option Text)
    (fun (kindLabel?, path?) => do return ⟨← kindLabel?, ← path?⟩)
    (do return ⟨← element true string, ← element false string⟩)

structure TagMembers where
  name : Option Text := none
  kind : Option Kind := none
  position : Option Position := none
  scope : Option (Option TagScope) := none

def tag : Decoder Tag :=
  record
    (fun key (m : TagMembers) =>
      if key = "name".toList then .once m.name string fun v => { m with name := some v }
      else if key = "kind".toList then .once m.kind kind fun v => { m with kind := some v }
      else if key = "position".toList then
        .once m.position position fun v => { m with position := some v }
      else if key = "scope".toList then
        .once m.scope (optional tagScope) fun v => { m with scope := some v }
      else .unknown)
    {}
    (fun m => do return ⟨← m.name, ← m.kind, ← m.position, m.scope.join⟩)
    (do
      let name ← element true string
      let kind ← element false kind
      let position ← element false position
      let scope ← element? false (optional tagScope)
      return ⟨name, kind, position, scope.join⟩)

def config : Decoder Config :=
  record
    (fun key (disabled? : Option (List Kind)) =>
      if key = "disabled_kinds".toList then .once disabled? (list kind) some
      else .unknown)
    none
    (fun disabled? => some ⟨disabled?.getD []⟩)
    (do return ⟨(← element? true (list kind)).getD []⟩)

end Decoder

/-- The input of a text, all of which is at hand. -/
def Input.ofText (t : Text) : Input := ⟨Utf8.encode t, []⟩

/-- The input of a source, of which nothing is at hand. -/
def Input.ofSource (source : Source) : Input := ⟨[], source⟩

def decode {α : Type} (d : Decoder α) (t : Text) : Except Fault α := d.run (.ofText t)

def member (key : Text) (value : Text) : Text := quote key ++ ':' :: value

def object (members : List Text) : Text :=
  '\x7b' :: [','].intercalate members ++ ['\x7d']

def array (elements : List Text) : Text := '[' :: [','].intercalate elements ++ [']']

end Tagline.Json

namespace Tagline

open Json (member object quote)

def Kind.toJson (k : Kind) : Text := quote k.key

def Position.toJson (p : Position) : Text :=
  object [member "line".toList (Text.decimal p.line), member "column".toList (Text.decimal p.column)]

def TagScope.toJson (s : TagScope) : Text :=
  object [member "kind_label".toList (quote s.kindLabel), member "path".toList (quote s.path)]

def Tag.toJson (t : Tag) : Text :=
  object ([member "name".toList (quote t.name), member "kind".toList t.kind.toJson,
    member "position".toList t.position.toJson] ++
    (t.scope.map fun s => member "scope".toList s.toJson).toList)

def Tag.listToJson (ts : List Tag) : Text := Json.array (ts.map Tag.toJson)

def Config.ofJson (t : Text) : Except Error Config :=
  (Json.decode Json.Decoder.config t).mapError .invalidConfig

/-- Reads a configuration from a source, whose bytes are taken only as they are needed. -/
def Config.ofJsonSource (source : Source) : Except Error Config :=
  (Json.Decoder.config.run (.ofSource source)).mapError .invalidConfig

end Tagline
