import Pinboard.Chart.Document
import Pinboard.Chart.Reference
import Pinboard.CommandLine.Failure
import Pinboard.Fit.Check
import Pinboard.Markup.Page

/-!
# Runs

A run reads its arguments, gets the program, and draws or checks it. What it has to print is printed at the end, text
by text, as far as the texts have an encoding. The file for a document is open before it comes out whether the document
can be put into it, and it is filled before it is said where it is.
-/

namespace Pinboard.CommandLine

/-- How a run ends. -/
inductive Outcome
  | answered (output : String) (exitStatus : Nat)
  /-- A failure is reported, behind what was printed before it; `traced` says that its cause is shown as well. -/
  | failed (printed : String) (failure : Failure) (format : ReportFormat) (traced : Bool)
deriving DecidableEq, Repr

namespace Outcome

def exitStatus : Outcome → Nat
  | .answered _ status => status
  | .failed _ failure _ _ => failure.group.exitStatus

/-- What is printed on the standard output. -/
def output : Outcome → String
  | .answered output _ => output
  | .failed printed _ _ _ => printed

/-- What is reported on the standard error, traces apart. -/
def report : Outcome → String
  | .answered _ _ => ""
  | .failed _ failure format _ => failure.report format

/-- The failure whose cause is to be shown, if there is one. -/
def trace : Outcome → Option Failure
  | .failed _ failure _ true => some failure
  | _ => none

end Outcome

/-- What a task has to say: the texts to be printed one after the other, and the exit status. -/
structure Answer where
  texts : List String
  exitStatus : Nat
deriving DecidableEq, Repr

/-- Print texts up to the first one that has no encoding; nothing is printed of that one. -/
def printTexts (strays : Text.StrayBytes) : List String → String × Option Text.EncodeFault
  | [] => ("", none)
  | text :: texts =>
    match strays.fault? text with
    | some fault => ("", some fault)
    | none =>
      let (printed, fault) := printTexts strays texts
      (text ++ printed, fault)

/-- How a run ends that has something to say. -/
def Answer.outcome (strays : Text.StrayBytes) (format : ReportFormat) (traced : Bool) (a : Answer) : Outcome :=
  match printTexts strays a.texts with
  | (printed, none) => .answered printed a.exitStatus
  | (printed, some fault) => .failed printed (.unencodable fault) format traced

/-- A program, and where it comes from. -/
structure Source where
  /-- The name of the source in reports. -/
  name : String
  program : String
  /-- The file that the program was read from. -/
  path : Option Path
deriving DecidableEq, Repr

/-- An argument that counts only if it is not empty. -/
def given (argument : Option String) : Option String := argument.filter (· != "")

section

variable {m : Type → Type} [Monad m]

/-- The program in a file. The ends of its lines become line feeds. -/
def Source.ofFile (host : Host m) (path : Path) : ExceptT Failure m Source := do
  if path.hasZero then
    throw (.fileMissing path)
  match ← host.readFile path with
  | .absent => throw (.fileMissing path)
  | .unclear fault => throw (.fileUnclear path fault)
  | .refused fault => throw (.fileRefused path fault)
  | .content bytes =>
    match Text.decode bytes with
    | .error fault => throw (.fileNotText fault)
    | .ok text => return ⟨path.text, String.ofList (Text.joinLineEnds text.toList), some path⟩

/-- The program on the standard input, which may not be blank. -/
def Source.ofInput (host : Host m) : ExceptT Failure m Source := do
  match ← host.standardInput with
  | none => throw .noInput
  | some (.error fault) => throw (.inputNotText fault)
  | some (.ok text) => if Text.hasInk text then return ⟨"<stdin>", text, none⟩ else throw .blankInput

/-- The program that is given, is in the file that is given, or is on the standard input. -/
def Source.find (host : Host m) (file program : Option String) : ExceptT Failure m Source :=
  match given file, program with
  | some _, some _ => throw .twoPrograms
  | none, some text => return ⟨"<text>", text, none⟩
  | some file, none => Source.ofFile host (Path.ofString file)
  | none, none => Source.ofInput host

end

/-- The title of the page for a program: the one that is given, or the stem of the file. -/
def DrawRequest.pageTitle (r : DrawRequest) (source : Source) : String :=
  match given r.title, source.path with
  | some title, _ => title
  | none, some path => path.stem
  | none, none => "diagram"

/-- The document for a program. -/
def DrawRequest.document (r : DrawRequest) (source : Source) : Except Failure String :=
  match render source.program with
  | .error fault => .error (.program source.name fault)
  | .ok drawing => .ok (if r.inPage then Page.wrap (r.pageTitle source) drawing else drawing)

/-- The file for the document of a program: the one that is given, or one beside the file of the program. -/
def DrawRequest.targetPath (r : DrawRequest) (file : Path) : Path :=
  match given r.target with
  | some target => .ofString target
  | none => file.withSuffix (if r.inPage then ".html" else ".svg")

/-- A text that ends with a line feed. -/
def endLine (s : String) : String := if s.toList.getLast? = some '\n' then s else s ++ "\n"

/-- The lines of the report on the labels of a program, one for each issue. -/
def checkLines (source : Source) (issues : List FitIssue) : List String :=
  let lines :=
    if issues.isEmpty then [source.name ++ ": all labels fit"]
    else issues.map fun issue => source.name ++ ":" ++ issue.report
  lines.map (· ++ "\n")

/-- The report on the labels of a program. -/
def checkReport (source : Source) (issues : List FitIssue) : String := String.join (checkLines source issues)

/-- What is said of a file that was written. -/
def writtenLine (target : Path) : String := "Wrote " ++ target.text ++ "\n"

section

variable {m : Type → Type} [Monad m]

/-- Write a document to a file. That it has no encoding comes out when the file is open. -/
def writeDocument (host : Host m) (target : Path) (document : String) : ExceptT Failure m Unit := do
  if target.hasZero then
    throw .targetUnusable
  match ← host.createFile target with
  | some fault => throw (.targetRefused target fault)
  | none =>
    match host.strays.fault? document with
    | some fault => throw (.unencodable fault)
    | none =>
      match ← host.fillFile target document with
      | some fault => throw (.targetUnfilled target fault)
      | none => return ()

/-- Draw a program: the document is printed if that is asked for or the program is in no file. -/
def DrawRequest.perform (host : Host m) (r : DrawRequest) : ExceptT Failure m Answer := do
  if r.printed && (given r.target).isSome then
    throw .twoTargets
  let source ← Source.find host r.file r.program
  let document ← r.document source
  match source.path with
  | some file =>
    if r.printed then return ⟨[endLine document], 0⟩
    else
      writeDocument host (r.targetPath file) document
      return ⟨[writtenLine (r.targetPath file)], 0⟩
  | none => return ⟨[endLine document], 0⟩

/-- Check the labels of a program. -/
def CheckRequest.perform (host : Host m) (r : CheckRequest) : ExceptT Failure m Answer := do
  let source ← Source.find host r.file r.program
  match Fit.checkProgram host.measurer source.program with
  | .error fault => throw (.program source.name fault)
  | .ok issues => return ⟨checkLines source issues, if r.strict && !issues.isEmpty then 1 else 0⟩

/-- Carry out a task. -/
def Task.perform (host : Host m) : Task → ExceptT Failure m Answer
  | .draw r => r.perform host
  | .check r => r.perform host
  | .reference => return ⟨[commandReference ++ "\n"], 0⟩

/-- Carry out a request. -/
def Request.perform (host : Host m) (r : Request) : ExceptT Failure m Answer :=
  match r.task with
  | some task => task.perform host
  | none => throw .missingCommand

/-- Run with arguments. A fault in the arguments is reported without a trace. -/
def run (host : Host m) (arguments : List String) : m Outcome := do
  if arguments.isEmpty then
    return .failed "" .missingCommand .text false
  match Request.ofArguments arguments with
  | .error (.help page) => return .answered page 0
  | .error (.fault fault) => return .failed "" (.usage fault) (Request.formatOfArguments arguments) false
  | .ok request =>
    let traced := Request.asksForTrace arguments || host.traceVariable == some "1"
    match ← (request.perform host).run with
    | .ok answer => return answer.outcome host.strays request.format traced
    | .error failure => return .failed "" failure request.format traced

end
end Pinboard.CommandLine
