/-!
# Paths

The extension of a file, read off the bytes of its path. Parts of a path are separated by slashes; a
part that is empty or a single dot at the end of a path does not count.
-/

namespace Tagline.Path

def separator : UInt8 := 0x2F

def dot : UInt8 := 0x2E

def parts : List UInt8 → List (List UInt8)
  | [] => [[]]
  | b :: bytes =>
    if b = separator then [] :: parts bytes
    else
      match parts bytes with
      | [] => [[b]]
      | part :: rest => (b :: part) :: rest

/-- The name of the file at the end of a path, unless the path ends with its parent. -/
def fileName? (path : List UInt8) : Option (List UInt8) :=
  ((parts path).reverse.find? fun part => part != [] && part != [dot]).filter (· != [dot, dot])

/-- What follows the last dot of a name, unless that dot is the first byte or there is none. -/
def extension? (name : List UInt8) : Option (List UInt8) :=
  let behind := name.reverse.takeWhile (· != dot)
  let before := (name.reverse.drop (behind.length + 1)).reverse
  if before = [] then none else some behind.reverse

end Tagline.Path
