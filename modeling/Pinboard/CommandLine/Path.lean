import Pinboard.Text.Split

/-!
# Paths

A path is a sequence of names behind a root. Empty names and single dots are not kept, so paths that differ
in nothing else are equal; two dots stay, because they depend on what is on the disk. The last name has a
stem and a suffix, cut at its last dot, unless that dot is its first or last character.
-/

namespace Pinboard.CommandLine

/-- Where a path begins. Exactly two slashes are a root of their own. -/
inductive Root
  | here
  | slash
  | doubleSlash
deriving DecidableEq, Repr

/-- A path, without needless parts. -/
structure Path where
  root : Root
  names : List String
deriving DecidableEq, Repr

namespace Path

/-- The root at the front of a path. -/
def rootOf : List Char → Root
  | '/' :: '/' :: '/' :: _ => .slash
  | '/' :: '/' :: _ => .doubleSlash
  | '/' :: _ => .slash
  | _ => .here

/-- The path that a text writes. -/
def ofString (s : String) : Path :=
  ⟨rootOf s.toList,
   (Text.parts (Text.cutAt (· == '/')) s).filter fun name => name != "" && name != "."⟩

/-- A path as text; the one without any part is a dot. -/
def text (p : Path) : String :=
  let names := "/".intercalate p.names
  match p.root with
  | .here => if p.names.isEmpty then "." else names
  | .slash => "/" ++ names
  | .doubleSlash => "//" ++ names

/-- The stem and the suffix of a name. -/
def cutName (name : String) : String × String :=
  let backwards := name.toList.reverse
  let ending := backwards.takeWhile (· ≠ '.')
  match backwards.dropWhile (· ≠ '.') with
  | '.' :: c :: front =>
    if ending.isEmpty then (name, "")
    else (String.ofList (c :: front).reverse, String.ofList ('.' :: ending.reverse))
  | _ => (name, "")

/-- The last name, if there is one. -/
def fileName (p : Path) : String := p.names.getLast?.getD ""

/-- The last name without its suffix. -/
def stem (p : Path) : String := (cutName p.fileName).1

/-- The path with another suffix on its last name. -/
def withSuffix (p : Path) (suffix : String) : Path :=
  { p with names := p.names.dropLast ++ [p.stem ++ suffix] }

/-- Whether a path has the character that no name on a disk can have. -/
def hasZero (p : Path) : Bool := p.text.toList.contains '\x00'

end Path
end Pinboard.CommandLine
