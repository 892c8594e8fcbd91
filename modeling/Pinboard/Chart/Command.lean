import Pinboard.Chart.Fault
import Pinboard.Chart.Verb
import Pinboard.Ring.Basic
import Pinboard.Text.Lowercase
import Pinboard.Text.Split

/-!
# Reading a command

The words of a line wait in a ring and are taken from its front. A command first counts its words, so
none of those it takes is missing. Numbers, sides and pins are still the words of the line here; what they
mean is found out when the command is carried out, in the order in which a command asks for them.
-/

namespace Pinboard

/-- A computation that takes words from the front of a line. -/
abbrev Reading (α : Type) := StateT (Ring String) (Except Fault) α

/-- A shape and the words that it has besides its corners. -/
inductive Shape
  | box (small : Bool)
  | table (columns : String)
  | pill
  | hex
  | tiltBox (skew : String)
  | trapBox (top bottom : String)
  | notchBox (outward : Bool) (side : String)
deriving DecidableEq, Repr

/-- A shape to draw: its two corner pins and its text. -/
structure ShapeCommand where
  shape : Shape
  first : String
  second : String
  text : String
deriving DecidableEq, Repr

/-- A shape whose corner pins are set first: the name that the pins begin with, the rectangle, and the
words that remain for the shape. -/
structure AutoCommand where
  kind : ShapeKind
  name : String
  x : String
  y : String
  width : String
  height : String
  parameters : List String
  rest : List String
deriving DecidableEq, Repr

/-- A line from one pin to another with its text. -/
structure LineCommand where
  kind : LineKind
  start : String
  finish : String
  text : String
deriving DecidableEq, Repr

/-- A command with its words. -/
inductive Command
  | pin (name x y : String)
  | offset (name source dx dy : String)
  | split (name first second : String)
  | corner (name first second : String)
  | project (name a b target : String)
  | move (dx dy : String) (group : List String)
  | moveTo (anchor : Anchor) (base : String) (group : List String)
  | moveOver (base reference : String) (group : List String)
  | reset (group : List String)
  | translate (x y : String)
  | setFill (colour : Option String)
  | setStroke (colour : Option String)
  | shape (command : ShapeCommand)
  | auto (command : AutoCommand)
  | line (command : LineCommand)
deriving DecidableEq, Repr

namespace Reading

/-- The next word. -/
def next : Reading String := fun words =>
  match words.popFront with
  | .ok (word, rest) => .ok (word, rest)
  | .error e => .error (.breakdown (.words e))

/-- The next words. -/
def nextWords : Nat → Reading (List String)
  | 0 => return []
  | count + 1 => return (← next) :: (← nextWords count)

/-- All words that remain. -/
def remaining : Reading (List String) := return (← get).toList

/-- The words that remain as one text. -/
def trailingText : Reading String := return " ".intercalate (← remaining)

/-- A command needs so many words, or fails before it takes one. -/
def require (count : Nat) (command : String) : Reading Unit := do
  let got := (← get).length
  if got < count then throw (.complaint (.tooFewWords command count got))

/-- The first word that remains, if any does. -/
def peek? : Reading (Option String) := do
  let words ← get
  if words.length = 0 then return none
  match words.peekFront with
  | .ok word => return some word
  | .error e => throw (.breakdown (.words e))

end Reading

open Reading

/-- A shape with its parameters, its corners and its text. -/
def ShapeCommand.read : ShapeKind → Reading ShapeCommand
  | .box => do
    require 2 ShapeKind.box.title
    return ⟨.box false, ← next, ← next, ← trailingText⟩
  | .smallBox => do
    require 2 ShapeKind.smallBox.title
    return ⟨.box true, ← next, ← next, ← trailingText⟩
  | .table => do
    require 3 ShapeKind.table.title
    let first ← next
    let second ← next
    let columns ← next
    return ⟨.table columns, first, second, ← trailingText⟩
  | .pill => do
    require 2 ShapeKind.pill.title
    return ⟨.pill, ← next, ← next, ← trailingText⟩
  | .hex => do
    require 2 ShapeKind.hex.title
    return ⟨.hex, ← next, ← next, ← trailingText⟩
  | .tiltBox => do
    require 3 ShapeKind.tiltBox.title
    return ⟨.tiltBox (← next), ← next, ← next, ← trailingText⟩
  | .trapBox => do
    require 4 ShapeKind.trapBox.title
    return ⟨.trapBox (← next) (← next), ← next, ← next, ← trailingText⟩
  | .boxOut => do
    require 3 ShapeKind.boxOut.title
    return ⟨.notchBox true (← next), ← next, ← next, ← trailingText⟩
  | .boxIn => do
    require 3 ShapeKind.boxIn.title
    return ⟨.notchBox false (← next), ← next, ← next, ← trailingText⟩

/-- A shape with a rectangle in place of its corners. -/
def AutoCommand.read (kind : ShapeKind) : Reading AutoCommand := do
  require (5 + kind.parameters) kind.autoTitle
  return ⟨kind, ← next, ← next, ← next, ← next, ← next, ← nextWords kind.parameters, ← remaining⟩

/-- A line with its two pins and its text. -/
def LineCommand.read (kind : LineKind) : Reading LineCommand := do
  require 2 kind.title
  return ⟨kind, ← next, ← next, ← trailingText⟩

/-- The words of a command. -/
def Command.read : Verb → Reading Command
  | .pin => do
    require 3 "Pin"
    return .pin (← next) (← next) (← next)
  | .offset => do
    require 4 "Offset"
    return .offset (← next) (← next) (← next) (← next)
  | .split => do
    require 3 "Split"
    return .split (← next) (← next) (← next)
  | .corner => do
    require 3 "Corner"
    return .corner (← next) (← next) (← next)
  | .project => do
    require 4 "Project"
    return .project (← next) (← next) (← next) (← next)
  | .move => do
    require 3 "Move"
    return .move (← next) (← next) (← remaining)
  | .moveTo anchor => do
    require 2 anchor.title
    return .moveTo anchor (← next) (← remaining)
  | .moveOver => do
    require 2 "MoveOver"
    return .moveOver (← next) (← next) (← remaining)
  | .reset => do
    require 1 "Reset"
    return .reset (← remaining)
  | .translate => do
    require 2 "Translate"
    return .translate (← next) (← next)
  | .fill => return .setFill (← peek?)
  | .stroke => return .setStroke (← peek?)
  | .clearFill => return .setFill none
  | .clearStroke => return .setStroke none
  | .shape kind => return .shape (← ShapeCommand.read kind)
  | .auto kind => return .auto (← AutoCommand.read kind)
  | .line kind => return .line (← LineCommand.read kind)

/-- The words of a line in a ring. -/
def wordsOf (words : List String) : Except Fault (Ring String) :=
  (Ring.ofList words).mapError fun e => .breakdown (.words e)

/-- The command on a line. -/
def Command.ofLine (line : String) : Except Fault Command := do
  let words ← wordsOf (Text.tokens line)
  let (first, words) ← next.run words
  let keyword := Text.lowercase first
  match Verb.ofKeyword? keyword with
  | none => throw (.complaint (.unknownCommand keyword))
  | some verb => (Command.read verb).run' words

end Pinboard
