import Pinboard.CommandLine.Path
import Pinboard.Fit.Wrapping
import Pinboard.Text.Quoted
import Pinboard.Text.Stray

/-!
# The surroundings of a run

What a run asks of its surroundings: the standard input, files, and how wide text is. The answers come in
any monad, so that a run on a real disk and a run on a modelled one are the same. A file is written in two steps, as it
is opened before anything is put into it.
-/

namespace Pinboard.CommandLine

/-- Why the system refuses a path: a number and its words. -/
structure PathFault where
  number : Nat
  words : String
deriving DecidableEq, Repr

namespace PathFault

def missing : PathFault := ⟨2, "No such file or directory"⟩

def notFolder : PathFault := ⟨20, "Not a directory"⟩

def isFolder : PathFault := ⟨21, "Is a directory"⟩

def tooLong : PathFault := ⟨36, "File name too long"⟩

/-- The words for a fault, without the path. -/
def title (fault : PathFault) : String := "[Errno " ++ Nat.repr fault.number ++ "] " ++ fault.words

/-- The words for a fault of a path. -/
def message (fault : PathFault) (p : Path) : String := fault.title ++ ": " ++ Text.quoted p.text

/-- Whether a fault means that nothing stands at the path. -/
def meansAbsence (fault : PathFault) : Bool := fault = missing || fault = notFolder

end PathFault

/-- What comes of reading a file. -/
inductive FileAnswer
  | absent
  /-- It cannot be found out whether the file is there. -/
  | unclear (fault : PathFault)
  /-- The file is there but cannot be read. -/
  | refused (fault : PathFault)
  | content (bytes : List UInt8)
deriving DecidableEq, Repr

/-- The surroundings of a run. -/
structure Host (m : Type → Type) where
  /-- The characters of the arguments that stand for stray bytes. -/
  strays : Text.StrayBytes
  /-- The standard input, unless that is a terminal: a text, or a fault where it is none. -/
  standardInput : m (Option (Except Text.Utf8Fault String))
  readFile : Path → m FileAnswer
  /-- Open a file to be written, which makes it empty or a new one, unless there is a fault. -/
  createFile : Path → m (Option PathFault)
  /-- Put a text into a file that is open, unless there is a fault. -/
  fillFile : Path → String → m (Option PathFault)
  measurer : Measurer
  /-- The value of the variable that asks for traces. -/
  traceVariable : Option String

end Pinboard.CommandLine
