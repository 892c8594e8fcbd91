import Pinboard.Font.Search
import Pinboard.Numeric.Conversion

/-!
# Fonts that have been opened

A font book keeps what it has found: the file of each family, also where there is none, and the font of each
size. A size is opened once: the files of the families are tried in order, then a common file, and if
none can be opened a built-in font serves.
-/

namespace Pinboard.Font

/-- A font in a size. -/
structure Face where
  /-- The file of the font; the built-in one has none. -/
  file : Option String
  size : Nat
deriving DecidableEq, Repr

/-- The families that stand for text without ornaments. -/
def plainFamilies : List String := ["DejaVu Sans", "Helvetica", "Arial", "Liberation Sans"]

/-- The file that is tried after those of the families. -/
def commonFile : String := "DejaVuSans.ttf"

/-- What has been found and opened so far. -/
structure Book where
  families : List String
  /-- The files of families, by their names in small letters. -/
  files : List (String × Option String)
  /-- The fonts by their sizes. -/
  faces : List (Nat × Face)
deriving DecidableEq, Repr

/-- What fonts there are to find and to open. -/
structure Shelf where
  directories : List Directory
  canOpen : String → Bool

/-- A book that has found nothing yet. -/
def Book.new (families : List String) : Book := ⟨families, [], []⟩

/-- The file of a family, which is looked for only once. -/
def Book.locate (b : Book) (directories : List Directory) (family : String) : Option String × Book :=
  let key := Text.lowercase family
  match b.files.lookup key with
  | some file => (file, b)
  | none =>
    let file := search directories family
    (file, { b with files := (key, file) :: b.files })

/-- The files of several families, in their order. -/
def Book.locateAll (b : Book) (directories : List Directory) : List String → List String × Book
  | [] => ([], b)
  | family :: families =>
    let (file, b) := b.locate directories family
    let (files, b) := b.locateAll directories families
    ((file.filter (· != "")).toList ++ files, b)

/-- The whole size that a size stands for: the nearest, but at least one. -/
def wholeSize (size : Binary64) : Computed Nat := do
  return (max 1 (← size.round)).toNat

/-- The files that are tried up to the first that can be opened. -/
def triedFiles (canOpen : String → Bool) : List String → List String
  | [] => []
  | file :: files => if canOpen file then [file] else file :: triedFiles canOpen files

/-- The font in a whole size and the files that were tried for it; none for a size that has been opened. -/
def Book.face (b : Book) (shelf : Shelf) (size : Nat) : Face × List String × Book :=
  match b.faces.lookup size with
  | some face => (face, [], b)
  | none =>
    let (located, b) := b.locateAll shelf.directories b.families
    let candidates := located ++ [commonFile]
    let face : Face := ⟨candidates.find? shelf.canOpen, size⟩
    (face, triedFiles shelf.canOpen candidates, { b with faces := (size, face) :: b.faces })

/-- The width of a text in a font whose characters are all as wide as the font is high. -/
def Face.width (face : Face) (text : String) : Binary64 :=
  Binary64.ofInt (text.length * face.size)

end Pinboard.Font
