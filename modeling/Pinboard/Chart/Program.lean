import Pinboard.Chart.AutoShape

/-!
# Programs

A program has one command to a line. Blanks around a line do not count; blank lines and lines that begin
with `#` are passed over but counted. The first line at fault ends the run.
-/

namespace Pinboard

/-- Carry out a command and return what it draws. -/
def Command.run : Command → Work Fragment
  | .pin name x y => do
    Placement.pin name x y
    return []
  | .offset name source dx dy => do
    Placement.offset name source dx dy
    return []
  | .split name first second => do
    Placement.split name first second
    return []
  | .corner name first second => do
    Placement.corner name first second
    return []
  | .project name a b target => do
    Placement.project name a b target
    return []
  | .move dx dy group => do
    Placement.move dx dy group
    return []
  | .moveTo anchor base group => do
    Placement.moveTo anchor base group
    return []
  | .moveOver base reference group => do
    Placement.moveOver base reference group
    return []
  | .reset group => do
    Placement.reset group
    return []
  | .translate x y => do
    Placement.translate x y
    return []
  | .setFill colour => do
    modify fun b => { b with fill := colour }
    return []
  | .setStroke colour => do
    modify fun b => { b with stroke := colour }
    return []
  | .shape s => s.draw
  | .auto c => c.draw
  | .line l => l.draw

/-- Carry out the command on a line. -/
def execute (line : String) : Work Fragment := do
  (← Work.of (Command.ofLine line)).run

/-- Carry out the command on the line with the given number. -/
def executeAt (number : Nat) (line : String) : Work Fragment := do
  modify fun b => { b with lineNumber := number }
  execute line

/-- The board and the drawing after some commands. -/
structure Chart where
  board : Board
  /-- What the commands that draw have drawn, in their order. -/
  fragments : List Fragment

namespace Chart

/-- The chart before the first command. -/
def blank : Chart := ⟨.start, []⟩

instance : Inhabited Chart where
  default := blank

/-- Carry out one more line of a program. -/
def step (chart : Chart) : Nat × String → Except ProgramFault Chart
  | (number, line) =>
    match executeAt number line chart.board with
    | .ok fragment board =>
      .ok ⟨board, if fragment.isEmpty then chart.fragments else chart.fragments ++ [fragment]⟩
    | .error fault _ => .error (fault.onLine number line)

/-- Carry out the lines of a program from a chart on. -/
def run (chart : Chart) (lines : List (Nat × String)) : Except ProgramFault Chart :=
  lines.foldlM step chart

end Chart

/-- Whether a line without blanks around it holds a command. -/
def isCommandLine (line : String) : Bool := !line.isEmpty && !line.startsWith "#"

/-- Lines without blanks around them, numbered from `first` on. -/
def numberLines (first : Nat) : List String → List (Nat × String)
  | [] => []
  | line :: lines => (first, Text.strip line) :: numberLines (first + 1) lines

/-- The command lines of a program with their numbers. -/
def commandLines (program : String) : List (Nat × String) :=
  (numberLines 1 (Text.lines program)).filter fun line => isCommandLine line.2

/-- The chart of a program. -/
def interpret (program : String) : Except ProgramFault Chart :=
  Chart.blank.run (commandLines program)

end Pinboard
