/-!
# The commands by name

The first word of a line names a command, whatever the case of its letters. `Verb` lists what the commands do, and
`Verb.named` their names in alphabetical order. Some names share a verb. `title` is how messages name a command.
-/

namespace Pinboard

/-- The shapes between two corner pins. -/
inductive ShapeKind
  | box
  | smallBox
  | table
  | pill
  | hex
  | tiltBox
  | trapBox
  | boxOut
  | boxIn
deriving DecidableEq, Repr

namespace ShapeKind

def title : ShapeKind → String
  | .box => "Box"
  | .smallBox => "SmallBox"
  | .table => "Table"
  | .pill => "Pill"
  | .hex => "Hex"
  | .tiltBox => "TiltBox"
  | .trapBox => "TrapBox"
  | .boxOut => "BoxOut"
  | .boxIn => "BoxIn"

/-- The number of words of a shape besides its corners and its text. -/
def parameters : ShapeKind → Nat
  | .box | .smallBox | .pill | .hex => 0
  | .table | .tiltBox | .boxOut | .boxIn => 1
  | .trapBox => 2

/-- Whether those words stand before the corners. -/
def parametersFirst : ShapeKind → Bool
  | .table => false
  | _ => true

/-- Whether a shape has a notch in one side. -/
def isNotched : ShapeKind → Bool
  | .boxOut | .boxIn => true
  | _ => false

/-- The name of the command that sets the pins of a shape as well. -/
def autoTitle (kind : ShapeKind) : String := "Auto" ++ kind.title

end ShapeKind

/-- The lines between two pins. -/
structure LineKind where
  arrow : Bool
  flipped : Bool
deriving DecidableEq, Repr

def LineKind.title : LineKind → String
  | ⟨false, false⟩ => "Line"
  | ⟨false, true⟩ => "FlipLine"
  | ⟨true, false⟩ => "Arrow"
  | ⟨true, true⟩ => "FlipArrow"

/-- The point of a group of pins that moves to a given pin: the top left corner or the centre, which has
two spellings. -/
inductive Anchor
  | topLeft
  | centre
  | center
deriving DecidableEq, Repr

namespace Anchor

def title : Anchor → String
  | .topLeft => "MoveTo"
  | .centre => "Centre"
  | .center => "Center"

def isCentre : Anchor → Bool
  | .topLeft => false
  | .centre | .center => true

end Anchor

/-- What a command does. -/
inductive Verb
  | pin
  | offset
  | split
  | corner
  | project
  | move
  | moveTo (anchor : Anchor)
  | moveOver
  | reset
  | translate
  | fill
  | stroke
  | clearFill
  | clearStroke
  | shape (kind : ShapeKind)
  | auto (kind : ShapeKind)
  | line (kind : LineKind)
deriving DecidableEq, Repr

namespace Verb

/-- The verbs by their names in small letters, in alphabetical order. -/
def named : List (String × Verb) :=
  [("arrow", .line ⟨true, false⟩), ("autobox", .auto .box), ("autoboxin", .auto .boxIn),
   ("autoboxout", .auto .boxOut), ("autohex", .auto .hex), ("autopill", .auto .pill),
   ("autosmallbox", .auto .smallBox), ("autotable", .auto .table), ("autotiltbox", .auto .tiltBox),
   ("autotrapbox", .auto .trapBox), ("box", .shape .box), ("boxin", .shape .boxIn),
   ("boxout", .shape .boxOut), ("center", .moveTo .center), ("centre", .moveTo .centre),
   ("clearfill", .clearFill), ("clearstroke", .clearStroke), ("corner", .corner), ("fill", .fill),
   ("fliparrow", .line ⟨true, true⟩), ("flipline", .line ⟨false, true⟩), ("group", .translate),
   ("hex", .shape .hex), ("line", .line ⟨false, false⟩), ("move", .move), ("moveover", .moveOver),
   ("moveto", .moveTo .topLeft), ("offset", .offset), ("pill", .shape .pill), ("pin", .pin),
   ("project", .project), ("reset", .reset), ("smallbox", .shape .smallBox), ("split", .split),
   ("stroke", .stroke), ("table", .shape .table), ("tiltbox", .shape .tiltBox),
   ("translate", .translate), ("trapbox", .shape .trapBox)]

/-- The verb with a given name in small letters. -/
def ofKeyword? (keyword : String) : Option Verb := named.lookup keyword

/-- The names of all commands. -/
def names : List String := named.map Prod.fst

end Verb
end Pinboard
