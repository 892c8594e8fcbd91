import Pinboard.Chart.Program
import Pinboard.Fit.Wrapping

/-!
# Whether labels fit

A label along a line fits if none of its paragraphs is wider than the line. A label in a box fits if no word is
wider than the box less a padding, and the lines that its words fill are no higher than the box. At most one
issue is reported for a label, the width before the height.
-/

namespace Pinboard

/-- The font size of a kind of text. -/
def TextClass.fontSize : TextClass → Binary64
  | .box => 12
  | .smallBox => 4
  | .line => 8

/-- The measure in which a label does not fit. -/
inductive Dimension
  | width
  | height
deriving DecidableEq, Repr

def Dimension.name : Dimension → String
  | .width => "width"
  | .height => "height"

/-- A label that does not fit. -/
structure FitIssue where
  line : Nat
  kind : LabelKind
  text : String
  dimension : Dimension
  needed : Binary64
  available : Binary64
deriving DecidableEq

/-- The report of an issue, on one line. -/
def FitIssue.report (i : FitIssue) : String :=
  "line " ++ Nat.repr i.line ++ ": " ++ i.kind.name ++ " label " ++ Text.quoted i.text ++ " needs "
    ++ i.needed.fixedText 1 ++ "px of " ++ i.dimension.name ++ " but has " ++ i.available.fixedText 1 ++ "px"

namespace Fit

/-- The largest of some numbers; the first of equal ones, and `fallback` for none. -/
def widest (fallback : Binary64) : List Binary64 → Binary64
  | [] => fallback
  | x :: xs => xs.foldl max x

/-- The room that a box leaves on its left and right. -/
def padding : Binary64 := 2

/-- The issue of a label that needs more than it has. -/
def issue (l : Label) (dimension : Dimension) (needed available : Binary64) : FitIssue :=
  ⟨l.line, l.kind, l.text, dimension, needed, available⟩

/-- The issue of a label along a line, if it has one. -/
def checkLine (m : Measurer) (l : Label) : Computed (Option FitIssue) := do
  let widths ← (Text.paragraphs l.text).mapM fun p => m.width (Text.strip p) l.textClass.fontSize
  let needed := widest 0 widths
  return if l.width < needed then some (issue l .width needed l.width) else none

/-- The words of all paragraphs of a text, each without the blanks at its ends. -/
def allWords (text : String) : List String :=
  (Text.paragraphs text).flatMap fun p => Text.words (Text.strip p)

/-- The issue of a label in a box, if it has one. -/
def checkBox (m : Measurer) (l : Label) : Computed (Option FitIssue) := do
  let size := l.textClass.fontSize
  let available := max (l.width - padding) 0
  let needed := widest 0 (← (allWords l.text).mapM fun word => m.width word size)
  if available < needed then
    return some (issue l .width needed available)
  let count ← lineCount m available size l.text
  let needed := Binary64.ofInt count * m.lineHeight size
  return if l.height < needed then some (issue l .height needed l.height) else none

/-- The issue of a label, if it has one. -/
def check (m : Measurer) (l : Label) : Computed (Option FitIssue) :=
  match l.kind with
  | .line => checkLine m l
  | .box => checkBox m l

/-- The issues of some labels, in their order. -/
def checkAll (m : Measurer) (labels : List Label) : Computed (List FitIssue) := do
  return (← labels.mapM (check m)).filterMap id

/-- The issues of the labels of a program. -/
def checkProgram (m : Measurer) (program : String) : Except ProgramFault (List FitIssue) := do
  let chart ← interpret program
  match checkAll m chart.board.labels with
  | .ok issues => return issues
  | .error fault => throw (.breakdown (.arithmetic fault))

end Fit
end Pinboard
