import Tagline.Text.Basic

/-!
# Kinds of definitions

Each kind has a letter and a name in singular and plural, by which a reader of tags shows it, and a
key, by which it is written in data. Letters and keys determine the kind:

    ofLetter? k.letter = some k                                    (ofLetter?_letter)
    ofKey? k.key = some k                                          (ofKey?_key)
-/

namespace Tagline

/-- The kind of a definition. -/
inductive Kind where
  | function
  | classDef
  | moduleDef
  /-- A function that is defined for a receiver, such as `show` in `Base.show`. -/
  | singletonMethod
  | describe
  | context
  | macroDef
  | typeDef
  | immutable
deriving DecidableEq, Repr, Ord

namespace Kind

def all : List Kind :=
  [.function, .classDef, .moduleDef, .singletonMethod, .describe, .context, .macroDef, .typeDef,
   .immutable]

/-- The letter that stands for the kind. -/
def letter : Kind → Char
  | .function => 'f'
  | .classDef => 'c'
  | .moduleDef => 'm'
  | .singletonMethod => 'F'
  | .describe => 'd'
  | .context => 'C'
  | .macroDef => 'M'
  | .typeDef => 't'
  | .immutable => 'i'

def name : Kind → Text
  | .function => "function".toList
  | .classDef => "class".toList
  | .moduleDef => "module".toList
  | .singletonMethod => "singleton method".toList
  | .describe => "describe".toList
  | .context => "context".toList
  | .macroDef => "macro".toList
  | .typeDef => "type".toList
  | .immutable => "immutable".toList

def plural : Kind → Text
  | .classDef => "classes".toList
  | k => k.name ++ ['s']

/-- The name of the kind in data: its name with underscores for spaces. -/
def key (k : Kind) : Text := k.name.map fun c => if c = ' ' then '_' else c

def ofLetter? (c : Char) : Option Kind := all.find? (·.letter == c)

def ofKey? (t : Text) : Option Kind := all.find? (·.key == t)

/-- Whether definitions of the kind are called, so that an operator can be their name. -/
def isCallable : Kind → Bool
  | .function | .singletonMethod => true
  | _ => false

/-! ## Lemmas -/

theorem mem_all (k : Kind) : k ∈ all := by cases k <;> decide

theorem ofLetter?_letter (k : Kind) : ofLetter? k.letter = some k := by cases k <;> decide

theorem ofKey?_key (k : Kind) : ofKey? k.key = some k := by cases k <;> decide

end Kind

/-- A row of the table of kinds that is shown to users. -/
structure KindOption where
  /-- Whether tags of the kind are reported at first. -/
  enabled : Bool
  kind : Kind
  letter : Char
  name : Text
  plural : Text
deriving DecidableEq, Repr

/-- The row of a kind that is reported at first. -/
def KindOption.ofKind (k : Kind) : KindOption := ⟨true, k, k.letter, k.name, k.plural⟩

end Tagline
