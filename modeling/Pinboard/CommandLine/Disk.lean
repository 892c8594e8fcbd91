import Pinboard.CommandLine.Host
import Pinboard.Text.Utf8

/-!
# A disk

A model of the files that a run can reach: a tree of folders in which the run stands at one place, the
working folder. Nothing is known of what lies above that place or elsewhere, so it is taken for folders that
hold nothing. A path is walked name by name; each name but the last has to lead to a folder.
-/

namespace Pinboard.CommandLine

/-- What stands at a place. -/
inductive Node
  | folder
  | file (bytes : List UInt8)
deriving DecidableEq, Repr

/-- A place on a disk: the names from the working folder on. In front of them `..` stands for a folder
above it, and `/` for the top of the disk. -/
abbrev Place := List String

namespace Place

/-- The place where a path begins. -/
def ofRoot : Root → Place
  | .here => []
  | .slash | .doubleSlash => ["/"]

/-- Whether a place is the working folder, a folder above it or the top of the disk. -/
def isAbove (place : Place) : Bool := place.all fun name => name == ".." || name == "/"

/-- The folder that a place is in. -/
def parent (place : Place) : Place :=
  match place.getLast? with
  | none | some ".." => place ++ [".."]
  | some "/" => place
  | some _ => place.dropLast

end Place

/-- The files and folders below the working folder. -/
structure Disk where
  nodes : List (Place × Node)
deriving DecidableEq, Repr

namespace Disk

/-- What stands at a place. -/
def at? (disk : Disk) (place : Place) : Option Node :=
  if place.isAbove then some .folder else disk.nodes.lookup place

/-- The most bytes that a name can have. -/
def nameLimit : Nat := 255

/-- The most bytes that a path can have. -/
def pathLimit : Nat := 4095

/-- Go from a place to a name in it. -/
def step (disk : Disk) (place : Place) (name : String) : Except PathFault Place :=
  match disk.at? place with
  | none => .error .missing
  | some (.file _) => .error .notFolder
  | some .folder =>
    if name = ".." then .ok place.parent
    else if nameLimit < name.utf8ByteSize then .error .tooLong
    else .ok (place ++ [name])

/-- The place that a path leads to; something need not stand there. -/
def locate (disk : Disk) (p : Path) : Except PathFault Place :=
  if pathLimit < p.text.utf8ByteSize then .error .tooLong
  else p.names.foldlM disk.step (Place.ofRoot p.root)

/-- What comes of reading a path. -/
def read (disk : Disk) (p : Path) : FileAnswer :=
  match disk.locate p with
  | .error fault => if fault.meansAbsence then .absent else .unclear fault
  | .ok place =>
    match disk.at? place with
    | none => .absent
    | some .folder => .refused .isFolder
    | some (.file bytes) => .content bytes

/-- The disk with a file at a place. -/
def put (disk : Disk) (place : Place) (bytes : List UInt8) : Disk :=
  ⟨(place, .file bytes) :: disk.nodes.filter fun entry => entry.1 != place⟩

/-- The disk after a file was opened to be written, or the fault that prevented it. -/
def create (disk : Disk) (p : Path) : Except PathFault Disk := do
  let place ← disk.locate p
  match disk.at? place with
  | some .folder => throw .isFolder
  | _ => return disk.put place []

/-- The disk after a text was put into a file that is open. -/
def fill (disk : Disk) (p : Path) (text : String) : Option PathFault × Disk :=
  match disk.locate p with
  | .ok place => (none, disk.put place (Text.encode text))
  | .error fault => (some fault, disk)

end Disk
end Pinboard.CommandLine
