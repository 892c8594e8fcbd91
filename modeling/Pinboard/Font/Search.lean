import Pinboard.Text.Lowercase

/-!
# Finding the file of a font family

Names of families and files are compared by their small ASCII letters and digits. A file whose name is that of the
family is the best match, one whose name begins with it is the next best, and of equal matches the first
in the order of the directories and their files counts.
-/

namespace Pinboard.Font

/-- A directory that fonts are looked for in, with the files at any depth below it. -/
structure Directory where
  isPresent : Bool
  files : List String
deriving DecidableEq, Repr

/-- Whether a character counts in a comparison of names. -/
def isNameChar (c : Char) : Bool := decide ('a' ≤ c ∧ c ≤ 'z') || decide ('0' ≤ c ∧ c ≤ '9')

/-- The characters of a name that count, of its small form. -/
def reduced (name : String) : List Char := (Text.lowercase name).toList.filter isNameChar

/-- The last component of a path. -/
def fileName (path : String) : List Char :=
  (path.toList.reverse.takeWhile (· != '/')).reverse

/-- The ending of a font file. -/
def fontEnding : List Char := ['.', 't', 't', 'f']

/-- Whether a file is a font. -/
def isFontFile (path : String) : Bool := fontEnding.isSuffixOf (fileName path)

/-- The name of a font file without its ending; a name that is nothing else keeps it. -/
def stem (path : String) : String :=
  let name := fileName path
  let front := name.take (name.length - fontEnding.length)
  String.ofList (if front.isEmpty then name else front)

/-- How well a file suits a family. -/
inductive Match
  | exact
  | start
deriving DecidableEq, Repr

/-- How well a file suits a reduced family name, if it does. -/
def matchOf (family : List Char) (path : String) : Option Match :=
  let name := reduced (stem path)
  if name = family then some .exact
  else if family.isPrefixOf name then some .start
  else none

/-- Whether a match is better than the best one so far. -/
def Match.beats : Match → Option (Match × String) → Bool
  | _, none => true
  | .exact, some (.start, _) => true
  | _, _ => false

/-- The best match so far, with one more file looked at. -/
def better (family : List Char) (best : Option (Match × String)) (path : String) : Option (Match × String) :=
  match matchOf family path with
  | none => best
  | some m => if m.beats best then some (m, path) else best

/-- The font files of the directories that are present, in the order in which they are searched. -/
def searchOrder (directories : List Directory) : List String :=
  directories.flatMap fun d => if d.isPresent then d.files.filter isFontFile else []

/-- The file that suits a family best. -/
def search (directories : List Directory) (family : String) : Option String :=
  ((searchOrder directories).foldl (better (reduced family)) none).map Prod.snd

end Pinboard.Font
