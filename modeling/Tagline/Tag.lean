import Tagline.Kind
import Tagline.Position

/-!
# Tags

A tag says that a name is defined at a position. A tag inside other definitions carries the path of
their names; a tag at the outermost level has no scope, which is not the same as an empty path.
-/

namespace Tagline

structure TagScope where
  kindLabel : Text
  /-- The names of the definitions around the tag, outermost first, joined by dots. -/
  path : Text
deriving DecidableEq, Repr

/-- The label of every scope that a scan gives to a tag: all kinds of definitions nest alike. -/
def TagScope.label : Text := "class".toList

def TagScope.ofPath (path : Text) : TagScope := ⟨label, path⟩

/-- A definition of a name. -/
structure Tag where
  name : Text
  kind : Kind
  /-- Where the name starts. -/
  position : Position
  /-- The scope of the definition, if it is inside another. -/
  scope : Option TagScope
deriving DecidableEq, Repr

namespace Tag

def line (t : Tag) : Nat := t.position.line

def scopePath? (t : Tag) : Option Text := t.scope.map (·.path)

end Tag

end Tagline
