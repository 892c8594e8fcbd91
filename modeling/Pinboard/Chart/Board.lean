import Pinboard.Chart.Fault
import Pinboard.Chart.PinTable
import Pinboard.Drawing.Figure

/-!
# The board

The state of a drawing in progress: the pins, the colours and the offset that later commands use, the
identifier of the next line, and a record of the text that has been placed. A command is a computation on
the board (`Work`) that may fail; what it changed before it failed stays changed.
-/

namespace Pinboard

/-- The kinds of text, each with its own size. -/
inductive TextClass
  | box
  | smallBox
  | line
deriving DecidableEq, Repr

/-- The name of a kind of text in the style sheet. -/
def TextClass.name : TextClass → String
  | .box => "boxText"
  | .smallBox => "boxTextSmall"
  | .line => "lineText"

/-- Whether text stands in a box or along a line. -/
inductive LabelKind
  | box
  | line
deriving DecidableEq, Repr

def LabelKind.name : LabelKind → String
  | .box => "box"
  | .line => "line"

/-- Text that a command has placed, and the room it was given. Breaks in the text are line feeds. -/
structure Label where
  kind : LabelKind
  text : String
  textClass : TextClass
  width : Binary64
  height : Binary64
  /-- The line of the program that the command stands on. -/
  line : Nat
deriving DecidableEq

/-- A drawing in progress. -/
structure Board where
  pins : PinTable
  fill : Option String
  stroke : Option String
  /-- What is added to the points of new pins. -/
  offset : Point
  /-- The number in the identifier of the next line. -/
  lineCounter : Nat
  /-- The line of the program that is being carried out. -/
  lineNumber : Nat
  labels : List Label
deriving DecidableEq

/-- The board before the first command. -/
def Board.start : Board :=
  { pins := .empty, fill := none, stroke := none, offset := ⟨0, 0⟩, lineCounter := 1, lineNumber := 0, labels := [] }

instance : Inhabited Board where
  default := .start

/-- What a command draws. -/
abbrev Fragment := List Element

/-- A computation on the board. A failure leaves the board as it was when it happened. -/
abbrev Work (α : Type) := EStateM Fault Board α

namespace Work

/-- A result or a fault, without a change of the board. -/
def of {α : Type} : Except Fault α → Work α
  | .ok a => pure a
  | .error e => throw e

/-- The result of a computation, without a change of the board. -/
def ofComputed {α : Type} : Computed α → Work α
  | .ok a => pure a
  | .error e => throw (.breakdown (.arithmetic e))

def setPin (name : String) (p : Point) : Work Unit :=
  modify fun b => { b with pins := b.pins.set name p }

def setPins (pins : List (String × Point)) : Work Unit :=
  modify fun b => { b with pins := b.pins.setAll pins }

def record (l : Label) : Work Unit :=
  modify fun b => { b with labels := b.labels ++ [l] }

/-- The identifier of the next line, which is then used up. -/
def nextLineId : Work String := do
  let b ← get
  set { b with lineCounter := b.lineCounter + 1 }
  return "curve_" ++ Nat.repr b.lineCounter

end Work
end Pinboard
