import Pinboard.Chart.Fault
import Pinboard.CommandLine.Host
import Pinboard.CommandLine.Request
import Pinboard.Text.Utf8

/-!
# Failures of a run

A failure belongs to a group, which decides its code and the exit status. Its report has one form for people
and one for programs, a JSON object on one line.
-/

namespace Pinboard.CommandLine

/-- Why a run fails. -/
inductive Failure
  | missingCommand
  | usage (fault : UsageFault)
  /-- The document is to be printed and to be written to a file. -/
  | twoTargets
  /-- Both a program and a file with a program are given. -/
  | twoPrograms
  | noInput
  | inputNotText (fault : Text.Utf8Fault)
  | blankInput
  | fileMissing (path : Path)
  | fileRefused (path : Path) (fault : PathFault)
  | fileUnclear (path : Path) (fault : PathFault)
  | fileNotText (fault : Text.Utf8Fault)
  | targetUnusable
  /-- The file for the document cannot be opened. -/
  | targetRefused (path : Path) (fault : PathFault)
  /-- The file for the document is open, but the document cannot be put into it. -/
  | targetUnfilled (path : Path) (fault : PathFault)
  /-- What is to be written or printed has stray bytes. -/
  | unencodable (fault : Text.EncodeFault)
  /-- A fault of the program from the named source. -/
  | program (source : String) (fault : ProgramFault)
deriving DecidableEq, Repr

/-- The groups of failures. -/
inductive FailureGroup
  | arguments
  | reading
  | writing
  | complaint (kind : ComplaintKind)
  | unexpected
deriving DecidableEq, Repr

namespace FailureGroup

def code : FailureGroup → String
  | .arguments => "E_ARGS"
  | .reading => "E_IO_READ"
  | .writing => "E_IO_WRITE"
  | .complaint kind => kind.code
  | .unexpected => "E_INTERNAL"

def exitStatus : FailureGroup → Nat
  | .arguments | .reading => 2
  | .writing => 4
  | .complaint _ => 3
  | .unexpected => 1

end FailureGroup

namespace Failure

def group : Failure → FailureGroup
  | .missingCommand | .usage _ | .twoTargets | .twoPrograms | .noInput | .blankInput => .arguments
  | .fileMissing _ | .fileRefused _ _ => .reading
  | .targetRefused _ _ | .targetUnfilled _ _ => .writing
  | .program _ (.complaint c _ _) => .complaint c.kind
  | .program _ (.breakdown _) | .inputNotText _ | .fileUnclear _ _ | .fileNotText _ | .targetUnusable
  | .unencodable _ => .unexpected

/-- The words for a failure. -/
def message : Failure → String
  | .missingCommand => "missing subcommand"
  | .usage fault => fault.message
  | .twoTargets => "--stdout and --output are mutually exclusive"
  | .twoPrograms => "--text cannot be combined with file input"
  | .noInput => "no input provided"
  | .blankInput => "stdin was empty"
  | .fileMissing path => "input file not found: " ++ path.text
  | .fileRefused path _ => "failed to read input file: " ++ path.text
  | .fileUnclear path fault => fault.message path
  | .inputNotText fault | .fileNotText fault => fault.message
  | .targetUnusable => "embedded null byte"
  | .targetRefused path _ | .targetUnfilled path _ => "failed to write output file: " ++ path.text
  | .unencodable fault => fault.message
  | .program _ fault => fault.message

/-- What to do about a failure. -/
def hint : Failure → Option String
  | .missingCommand => some "Use one of: render, check, cheatsheet."
  | .usage _ => some "Use subcommands: render, check, cheatsheet."
  | .twoTargets => some "Choose either --stdout or --output."
  | .twoPrograms => some "Use either FILE or --text."
  | .noInput => some "Use a subcommand with FILE, --text, or pipe stdin."
  | .blankInput => some "Pipe a diagram program into stdin."
  | .fileMissing _ => none
  | .fileRefused path fault | .targetRefused path fault => some (fault.message path)
  | .program _ (.complaint _ _ _) => some "Run `draig cheatsheet` for command syntax."
  | .targetUnfilled _ fault => some fault.title
  | .program _ (.breakdown _) | .inputNotText _ | .fileUnclear _ _ | .fileNotText _ | .targetUnusable
  | .unencodable _ =>
    some "Re-run with --debug to see traceback."

/-- The file or other source that a failure is about. -/
def source : Failure → Option String
  | .fileMissing path | .fileRefused path _ | .targetRefused path _ | .targetUnfilled path _ => some path.text
  | .program source (.complaint _ _ _) => some source
  | _ => none

/-- The line of the program that a failure is about. -/
def line : Failure → Option Nat
  | .program _ (.complaint _ line _) => some line
  | _ => none

/-- The report of a failure for people. -/
def textReport (f : Failure) : String :=
  "error[" ++ f.group.code ++ "]: " ++ f.message ++ "\n"
    ++ match f.hint with
      | some hint => "hint: " ++ hint ++ "\n"
      | none => ""

/-- A value that may be missing, as a JSON document writes it. -/
def jsonOption {α : Type} (write : α → String) : Option α → String
  | some a => write a
  | none => "null"

/-- The report of a failure for programs. -/
def jsonReport (f : Failure) : String :=
  let fields :=
    [("ok", "false"), ("code", Text.jsonText f.group.code), ("message", Text.jsonText f.message),
     ("file", jsonOption Text.jsonText f.source), ("line", jsonOption Nat.repr f.line),
     ("hint", jsonOption Text.jsonText f.hint)]
  "\x7b" ++ commaList (fields.map fun (name, value) => Text.jsonText name ++ ": " ++ value) ++ "\x7d\n"

/-- The report of a failure. -/
def report (f : Failure) : ReportFormat → String
  | .text => f.textReport
  | .json => f.jsonReport

end Failure
end Pinboard.CommandLine
