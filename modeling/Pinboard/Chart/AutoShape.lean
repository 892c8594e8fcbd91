import Pinboard.Chart.Drafting

/-!
# Shapes that set their own pins

Each shape has a form that takes a name and a rectangle in place of two corner pins. It sets eight pins
around the rectangle, named by the name and a suffix, and then draws the shape between two of them as if
the words of the shape's own command had been written. Where the shape has a notch the pin in the middle of
that side is moved out by the depth of the notch.
-/

namespace Pinboard

open Work

/-- The suffixes of the pins around a rectangle, each with its place in parts of the width and height. -/
def autoPins : List (String × Binary64 × Binary64) :=
  [("_tl", 0, 0), ("_t", 0.5, 0), ("_tr", 1, 0), ("_l", 0, 0.5), ("_r", 1, 0.5), ("_bl", 0, 1),
   ("_b", 0.5, 1), ("_br", 1, 1)]

/-- The suffix of the pin in the middle of a side. -/
def Side.pinSuffix : Side → String
  | .left => "_l"
  | .right => "_r"
  | .top => "_t"
  | .bottom => "_b"

/-- A number has to be above zero. -/
def requirePositive (command dimension : String) (x : Binary64) : Work Unit := do
  if x ≤ 0 then
    throw (.complaint (.notPositive command dimension (← ofComputed (Binary64.numberText x))))

/-- Set the pins around a rectangle. -/
def placeAround (command name : String) (a : Area) : Work Unit :=
  autoPins.forM fun (suffix, fx, fy) =>
    place command (name ++ suffix) ⟨a.left + a.width * fx, a.top + a.height * fy⟩

/-- Move the pin in the middle of a side out by the depth of its notch. -/
def pushOut (command name : String) (side : Side) (a : Area) : Work Unit := do
  let depth := Geometry.notchDepth (if side.isVertical then a.height else a.width)
  let pin := name ++ side.pinSuffix
  match (← pins).point? pin with
  | none => throw (.breakdown (.lostPin pin))
  | some p => shift command [(pin, p)] (side.normal.x * depth) (side.normal.y * depth)

/-- The side that a shape has its notch in. -/
def AutoCommand.notchSide (c : AutoCommand) : Meaning (Option Side) :=
  match c.kind.isNotched, c.parameters with
  | true, word :: _ => some <$> Meaning.side c.kind.autoTitle word
  | _, _ => .ok none

/-- The words of the shape's own command. -/
def AutoCommand.shapeWords (c : AutoCommand) : List String :=
  let corners := [c.name ++ "_tl", c.name ++ "_br"]
  (if c.kind.parametersFirst then c.parameters ++ corners else corners ++ c.parameters) ++ c.rest

/-- The shape's own command. -/
def AutoCommand.shape (c : AutoCommand) : Meaning ShapeCommand := do
  (ShapeCommand.read c.kind).run' (← wordsOf c.shapeWords)

/-- Set the pins of a shape: those around its rectangle, and the one on the tip of its notch. -/
def AutoCommand.setPins (c : AutoCommand) : Work Unit := do
  let command := c.kind.autoTitle
  let x ← of (Meaning.number command "x" c.x)
  let y ← of (Meaning.number command "y" c.y)
  let width ← of (Meaning.number command "width" c.width)
  let height ← of (Meaning.number command "height" c.height)
  requirePositive command "width" width
  requirePositive command "height" height
  let side ← of c.notchSide
  let area : Area := ⟨x, y, width, height⟩
  placeAround command c.name area
  if let some side := side then
    pushOut command c.name side area

/-- Set the pins of a shape and draw it. -/
def AutoCommand.draw (c : AutoCommand) : Work Fragment := do
  c.setPins
  (← of c.shape).draw

end Pinboard
