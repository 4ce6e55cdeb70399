import Tagline.Path
import Tagline.Scanner.Basic
import Tagline.Text.Utf8

/-!
# Languages

What a program that indexes files has to know of a language: its name, the extensions of its files,
and the table of the kinds that its scanner reports.
-/

namespace Tagline

/-- A language whose files can be scanned. -/
structure Language where
  name : Text
  /-- The extensions of its files, without a dot. -/
  extensions : List Text
  kinds : List KindOption
  lexicon : Lexicon

namespace Language

def julia : Language where
  name := "Julia".toList
  extensions := ["jl".toList, "julia".toList]
  kinds := Kind.all.map KindOption.ofKind
  lexicon := .julia

/-- Whether files with the extension are handled. A dot before the extension does not matter, the
case of its letters does. -/
def handlesExtension (language : Language) (extension : Text) : Bool :=
  let bare := match extension with
    | '.' :: rest => rest
    | _ => extension
  language.extensions.contains bare

def handlesPath (language : Language) (path : List UInt8) : Bool :=
  match ((Path.fileName? path).bind Path.extension?).bind Utf8.decode? with
  | some extension => language.handlesExtension extension
  | none => false

def kindOption? (language : Language) (k : Kind) : Option KindOption :=
  language.kinds.find? (·.kind == k)

/-- A scanner that reports the kinds that are enabled in the table. -/
def scanner (language : Language) : Scanner where
  config := ((language.kinds.filter (!·.enabled)).map (·.kind)).foldl Config.disable {}
  lexicon := language.lexicon

end Language

end Tagline
