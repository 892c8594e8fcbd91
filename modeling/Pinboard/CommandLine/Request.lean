import Pinboard.CommandLine.Grammar

/-!
# Requests

What can be asked for: to draw a program, to check its labels, or to see the command reference. Each of
these tasks is a command with options of its own; the options before the command are about reports of
failures. The pages of help are those for a terminal with 80 columns.
-/

namespace Pinboard.CommandLine

/-- The forms of a report of a failure. -/
inductive ReportFormat
  | text
  | json
deriving DecidableEq, Repr

/-- A request to draw a program. -/
structure DrawRequest where
  /-- The file with the program. -/
  file : Option String := none
  /-- The program itself. -/
  program : Option String := none
  /-- Whether the document is printed. -/
  printed : Bool := false
  /-- The file for the document. -/
  target : Option String := none
  /-- Whether the document is put into a page. -/
  inPage : Bool := false
  /-- The title of the page. -/
  title : Option String := none
deriving DecidableEq, Repr

/-- A request to check the labels of a program. -/
structure CheckRequest where
  /-- The file with the program. -/
  file : Option String := none
  /-- The program itself. -/
  program : Option String := none
  /-- Whether labels that do not fit count in the exit status. -/
  strict : Bool := false
deriving DecidableEq, Repr

/-- What is to be done. -/
inductive Task
  | draw (r : DrawRequest)
  | check (r : CheckRequest)
  | reference
deriving DecidableEq, Repr

/-- What the arguments ask for. -/
structure Request where
  format : ReportFormat := .text
  task : Option Task := none
deriving DecidableEq, Repr

/-- The lines of a page of help. -/
def helpPage (lines : List String) : String := String.join (lines.map (· ++ "\n"))

/-- The help for a request to draw. -/
def DrawRequest.help : String := helpPage
  ["usage: draig render [-h] [--text TEXT] [--stdout] [-o OUTPUT] [--html]",
   "                    [--title TITLE]",
   "                    [input]",
   "",
   "positional arguments:",
   "  input                 Input diagram program file",
   "",
   "options:",
   "  -h, --help            show this help message and exit",
   "  --text TEXT           Raw diagram program source",
   "  --stdout              Write output to stdout",
   "  -o OUTPUT, --output OUTPUT",
   "                        Output path",
   "  --html                Wrap the SVG in an HTML page",
   "  --title TITLE         HTML page title (defaults to the input name)"]

/-- The arguments of a request to draw. -/
def DrawRequest.grammar : Grammar DrawRequest where
  switches :=
    [.help DrawRequest.help,
     .setting none "text" fun value r => { r with program := some value },
     .flag "stdout" fun r => { r with printed := true },
     .setting (some 'o') "output" fun value r => { r with target := some value },
     .flag "html" fun r => { r with inPage := true },
     .setting none "title" fun value r => { r with title := some value }]
  operands := .one fun value r => { r with file := some value }

/-- The help for a request to check. -/
def CheckRequest.help : String := helpPage
  ["usage: draig check [-h] [--text TEXT] [--strict] [input]",
   "",
   "positional arguments:",
   "  input        Input diagram program file",
   "",
   "options:",
   "  -h, --help   show this help message and exit",
   "  --text TEXT  Raw diagram program source",
   "  --strict     Exit with status 1 when any label overflows"]

/-- The arguments of a request to check. -/
def CheckRequest.grammar : Grammar CheckRequest where
  switches :=
    [.help CheckRequest.help,
     .setting none "text" fun value r => { r with program := some value },
     .flag "strict" fun r => { r with strict := true }]
  operands := .one fun value r => { r with file := some value }

/-- The help for a request for the command reference. -/
def referenceHelp : String := helpPage
  ["usage: draig cheatsheet [-h]",
   "",
   "options:",
   "  -h, --help  show this help message and exit"]

/-- The arguments of a request for the command reference. -/
def referenceGrammar : Grammar Unit := ⟨[.help referenceHelp], .none⟩

namespace Task

/-- The readers of the tasks, by the names of their commands. -/
def readers : List (String × (List String → Reading (Task × List String))) :=
  [("render", fun arguments => do
      let (r, leftover) ← DrawRequest.grammar.read {} arguments
      return (.draw r, leftover)),
   ("check", fun arguments => do
      let (r, leftover) ← CheckRequest.grammar.read {} arguments
      return (.check r, leftover)),
   ("cheatsheet", fun arguments => do
      let (_, leftover) ← referenceGrammar.read () arguments
      return (.reference, leftover))]

/-- The task of a command with the arguments behind it. -/
def read (command : String) (arguments : List String) : Reading (Task × List String) := do
  (← Switch.choose "command" readers command) arguments

end Task

namespace Request

/-- The forms of a report, by their names. -/
def formats : List (String × ReportFormat) := [("text", .text), ("json", .json)]

/-- The option for the form of a report, as it stands in an argument. -/
def formatOption : String := "--error-format"

/-- The option that asks for a trace of a failure. -/
def traceOption : String := "--debug"

/-- The help for all requests. -/
def help : String := helpPage
  ["usage: draig [-h] [--error-format \x7btext,json\x7d] [--debug]",
   "             \x7brender,check,cheatsheet\x7d ...",
   "",
   "Render pin-based diagram programs to SVG.",
   "",
   "positional arguments:",
   "  \x7brender,check,cheatsheet\x7d",
   "    render              Render a diagram program to SVG",
   "    check               Report labels that overflow their shapes",
   "    cheatsheet          Print the command reference",
   "",
   "options:",
   "  -h, --help            show this help message and exit",
   "  --error-format \x7btext,json\x7d",
   "  --debug"]

/-- The arguments of a request. -/
def grammar : Grammar Request where
  switches :=
    [.help help,
     ⟨none, "error-format", .setting fun value r => do
       return { r with format := ← Switch.choose formatOption formats value }⟩,
     .flag "debug" id]
  operands := .command fun command arguments r => do
    let (task, leftover) ← Task.read command arguments
    return ({ r with task := some task }, leftover)

/-- The request that the arguments make; each of them has to be of use. -/
def ofArguments (arguments : List String) : Reading Request := do
  match ← grammar.read {} arguments with
  | (r, []) => return r
  | (_, leftover) => Reading.refuse (.unrecognized leftover)

/-- The form of a report of arguments that make no request: the argument behind the first one that is the
option for it. -/
def formatOfArguments (arguments : List String) : ReportFormat :=
  match arguments.dropWhile (· ≠ formatOption) with
  | _ :: value :: _ => (formats.lookup value).getD .text
  | _ => .text

/-- Whether a trace is asked for by some argument. -/
def asksForTrace (arguments : List String) : Bool := arguments.contains traceOption

end Request
end Pinboard.CommandLine
