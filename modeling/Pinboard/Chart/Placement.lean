import Pinboard.Chart.Measure

/-!
# Setting and moving pins

A pin is set only at a finite point. The offset of the board is added to the points of `Pin` and of the
shapes that set their own pins, and to no others. A group of pins moves as one: every target is checked
before any pin of the group moves.
-/

namespace Pinboard

namespace Work

/-- The pins of the board. -/
def pins : Work PinTable := return (← get).pins

/-- Set a pin at a point, which has to be finite. -/
def setFinitePin (command name : String) (p : Point) : Work Unit := do
  setPin name (← of (Meaning.finitePoint command p))

/-- Set a pin at a point moved by the offset of the board. -/
def place (command name : String) (p : Point) : Work Unit := do
  let offset := (← get).offset
  setFinitePin command name ⟨p.x + offset.x, p.y + offset.y⟩

/-- Move a group of pins by a vector. -/
def shift (command : String) (group : List (String × Point)) (dx dy : Binary64) : Work Unit := do
  let moved ← of <| group.mapM fun (name, p) => do
    return (name, ← Meaning.finitePoint command ⟨p.x + dx, p.y + dy⟩)
  setPins moved

end Work

namespace Placement

open Work

/-- A pin at two coordinates. -/
def pin (name x y : String) : Work Unit := do
  let x ← of (Meaning.number "Pin" "x" x)
  let y ← of (Meaning.number "Pin" "y" y)
  place "Pin" name ⟨x, y⟩

/-- A pin at a distance from another one. -/
def offset (name source dx dy : String) : Work Unit := do
  let p ← of (Meaning.pin (← pins) "Offset" source)
  let dx ← of (Meaning.number "Offset" "dx" dx)
  let dy ← of (Meaning.number "Offset" "dy" dy)
  setFinitePin "Offset" name ⟨p.x + dx, p.y + dy⟩

/-- A pin half-way between two others. -/
def split (name first second : String) : Work Unit := do
  let p ← of (Meaning.pin (← pins) "Split" first)
  let q ← of (Meaning.pin (← pins) "Split" second)
  setFinitePin "Split" name ⟨(p.x + q.x) / 2, (p.y + q.y) / 2⟩

/-- A pin below or above one pin and beside another. -/
def corner (name first second : String) : Work Unit := do
  let p ← of (Meaning.pin (← pins) "Corner" first)
  let q ← of (Meaning.pin (← pins) "Corner" second)
  setPin name ⟨p.x, q.y⟩

/-- A pin where the perpendicular from a pin meets the line through two others. -/
def project (name a b target : String) : Work Unit := do
  let p ← of (Meaning.pin (← pins) "Project" a)
  let q ← of (Meaning.pin (← pins) "Project" b)
  let r ← of (Meaning.pin (← pins) "Project" target)
  setFinitePin "Project" name (Geometry.project p q r)

/-- Move pins by two numbers. -/
def move (dx dy : String) (names : List String) : Work Unit := do
  let dx ← of (Meaning.number "Move" "dx" dx)
  let dy ← of (Meaning.number "Move" "dy" dy)
  shift "Move" (← of (Meaning.group (← pins) "Move" names)) dx dy

/-- Move pins so that the top left corner or the centre of the group lies on a pin. -/
def moveTo (anchor : Anchor) (base : String) (names : List String) : Work Unit := do
  let p ← of (Meaning.pin (← pins) anchor.title base)
  let group ← of (Meaning.group (← pins) anchor.title names)
  let e ← of (Meaning.extent (group.map Prod.snd))
  if anchor.isCentre then
    shift anchor.title group (p.x - (e.left + e.right) / 2) (p.y - (e.top + e.bottom) / 2)
  else
    shift anchor.title group (p.x - e.left) (p.y - e.top)

/-- Move pins by the way from one pin to another. -/
def moveOver (base reference : String) (names : List String) : Work Unit := do
  let p ← of (Meaning.pin (← pins) "MoveOver" base)
  let q ← of (Meaning.pin (← pins) "MoveOver" reference)
  shift "MoveOver" (← of (Meaning.group (← pins) "MoveOver" names)) (p.x - q.x) (p.y - q.y)

/-- Move pins so that the top left corner of the group lies at the origin. -/
def reset (names : List String) : Work Unit := do
  let group ← of (Meaning.group (← pins) "Reset" names)
  let e ← of (Meaning.extent (group.map Prod.snd))
  shift "Reset" group (-e.left) (-e.top)

/-- Another offset for the pins to come. -/
def translate (x y : String) : Work Unit := do
  let x ← of (Meaning.number "Translate" "x" x)
  let y ← of (Meaning.number "Translate" "y" y)
  modify fun b => { b with offset := ⟨x, y⟩ }

end Placement
end Pinboard
