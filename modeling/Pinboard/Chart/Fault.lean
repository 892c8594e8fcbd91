import Pinboard.Numeric.Decimal
import Pinboard.Ring.Error
import Pinboard.Text.Quoted

/-!
# Why a command fails

A `Complaint` is about what a line of a program says. A `Breakdown` is any other failure: arithmetic
without a result, or a look-up that no line should be able to make fail.
-/

namespace Pinboard

/-- What is wrong with a line of a program. -/
inductive Complaint
  | unknownCommand (keyword : String)
  | tooFewWords (command : String) (needed got : Nat)
  | notNumeric (command what word : String)
  | numberOutOfRange (command what word : String)
  | columnsNotInteger (command word : String)
  | negativeColumns (command : String) (columns : Int)
  | notASide (command word : String)
  | undefinedPin (command pin : String)
  /-- A pin would lie beyond the largest number. -/
  | pinOutOfRange (command : String)
  /-- An outline would reach beyond the largest number. -/
  | outlineOutOfRange (command : String)
  /-- The corners are too far apart for their distance to be a number. -/
  | shapeTooLarge (command : String)
  /-- A width or height that is not above zero, in numerals. -/
  | notPositive (command dimension value : String)
deriving DecidableEq, Repr

/-- The kinds of complaints. -/
inductive ComplaintKind
  | argument
  | undefinedPin
  | dimension
  | unknownCommand
deriving DecidableEq, Repr

namespace ComplaintKind

/-- The code that stands for a kind in reports. -/
def code : ComplaintKind → String
  | .argument => "E_ARGUMENT"
  | .undefinedPin => "E_UNDEFINED_PIN"
  | .dimension => "E_DIMENSION"
  | .unknownCommand => "E_UNKNOWN_COMMAND"

end ComplaintKind

namespace Complaint

def kind : Complaint → ComplaintKind
  | .unknownCommand _ => .unknownCommand
  | .undefinedPin _ _ => .undefinedPin
  | .negativeColumns _ _ | .outlineOutOfRange _ | .shapeTooLarge _ | .notPositive _ _ _ => .dimension
  | .tooFewWords _ _ _ | .notNumeric _ _ _ | .numberOutOfRange _ _ _ | .columnsNotInteger _ _
  | .notASide _ _ | .pinOutOfRange _ => .argument

/-- The words for a complaint. -/
def message : Complaint → String
  | .unknownCommand keyword => "unknown command '" ++ keyword ++ "'"
  | .tooFewWords command needed got =>
    command ++ " command too short: needs " ++ Nat.repr needed ++ " arguments, got " ++ Nat.repr got
  | .notNumeric command what word =>
    command ++ " -- " ++ what ++ " must be numeric (got " ++ Text.quoted word ++ ")"
  | .numberOutOfRange command what word =>
    command ++ " -- " ++ what ++ " is out of range (got " ++ Text.quoted word ++ ")"
  | .columnsNotInteger command word =>
    command ++ " -- column count must be an integer (got " ++ Text.quoted word ++ ")"
  | .negativeColumns command columns =>
    command ++ " -- table columns not valid: " ++ integerText columns
  | .notASide command word =>
    command ++ " -- side must be left, right, top or bottom (got " ++ Text.quoted word ++ ")"
  | .undefinedPin command pin => command ++ " -- pin not defined '" ++ pin ++ "'"
  | .pinOutOfRange command => command ++ " -- pin coordinates out of range"
  | .outlineOutOfRange command => command ++ " -- outline is out of range"
  | .shapeTooLarge command => command ++ " -- shape is too large"
  | .notPositive command dimension value => command ++ " -- invalid " ++ dimension ++ ": " ++ value

end Complaint

/-- A failure that is not about what a line says. -/
inductive Breakdown
  | arithmetic (fault : ArithmeticFault)
  /-- The words of a line were asked for more than they hold. -/
  | words (error : RingError)
  /-- The extent of no points at all. -/
  | emptyGroup
  /-- A pin that was just set is missing. -/
  | lostPin (name : String)
deriving DecidableEq, Repr

namespace Breakdown

/-- The words for a breakdown. -/
def message : Breakdown → String
  | .arithmetic fault => fault.message
  | .words error => error.message
  | .emptyGroup => "min() arg is an empty sequence"
  | .lostPin name => Text.quoted name

end Breakdown

/-- Why a command has no result. -/
inductive Fault
  | complaint (c : Complaint)
  | breakdown (b : Breakdown)
deriving DecidableEq, Repr

/-- The words for a fault. -/
def Fault.message : Fault → String
  | .complaint c => c.message
  | .breakdown b => b.message

/-- A complaint together with the line that it is about. -/
inductive ProgramFault
  | complaint (c : Complaint) (line : Nat) (source : String)
  | breakdown (b : Breakdown)
deriving DecidableEq, Repr

/-- The words for a fault in a program. -/
def ProgramFault.message : ProgramFault → String
  | .complaint c line source =>
    "line " ++ Nat.repr line ++ ": " ++ c.message ++ " in '" ++ source ++ "'"
  | .breakdown b => b.message

/-- A fault of the given line of a program. -/
def Fault.onLine (line : Nat) (source : String) : Fault → ProgramFault
  | .complaint c => .complaint c line source
  | .breakdown b => .breakdown b

end Pinboard
