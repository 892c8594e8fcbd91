import Pinboard.Chart.Placement
import Pinboard.Drawing.Line
import Pinboard.Text.Blank

/-!
# Drawing shapes and lines

A shape is drawn between two corner pins in the fill colour, with its text in an area that its outline
leaves free. An outline has to be finite before it is drawn. A line is drawn between two pins in the
stroke colour, with its text along it; the path runs from left to right so that the text is upright,
unless the line is flipped.
-/

namespace Pinboard

open Work

/-- The replacement for an underscore in the text along a line: a space that does not break. -/
def lineTextChar (c : Char) : Char := if c = '_' then '\u00a0' else c

/-- Record a label for each cell of a block that is not blank. -/
def recordCells (a : Area) (cells : List String) (columns : Nat) (textClass : TextClass) : Work Unit := do
  let rows : Nat := max 1 ((cells.length + columns - 1) / columns)
  for cell in cells do
    if Text.hasInk cell then
      let width ← ofComputed (a.width.divideBy columns)
      let height ← ofComputed (a.height.divideBy rows)
      let line := (← get).lineNumber
      record ⟨.box, String.ofList (Text.expandBreaks cell.toList), textClass, width, height, line⟩

/-- Record the text of a block and draw it. -/
def textBlock (a : Area) (cells : List String) (columns : Nat) (textClass : TextClass) : Work Element := do
  recordCells a cells columns textClass
  ofComputed (Drawing.textBlock a cells columns textClass.name)

/-- The text of a shape in one cell; nothing where there is no text. -/
def shapeText (a : Area) (text : String) (textClass : TextClass) : Work Fragment := do
  if text.isEmpty then return []
  return [← textBlock a [text] 1 textClass]

/-- An outline in the fill colour, which has to be finite. -/
def outline (command : String) (points : List Point) : Work Element := do
  if points.all Point.isFinite then
    ofComputed (Drawing.polygon points (← get).fill)
  else
    throw (.complaint (.outlineOutOfRange command))

/-- The columns of a table: the given count, or for zero the most that make no more columns than rows. -/
def tableColumns (columns : Nat) (cells : List String) : Nat :=
  if columns = 0 then max 1 cells.length.sqrt else columns

/-- Draw a rectangle, with its text in one cell. -/
def drawBox (command : String) (textClass : TextClass) (s : ShapeCommand) : Work Fragment := do
  let b ← of (Meaning.corners (← pins) command s.first s.second)
  let figure ← ofComputed (Drawing.rectangle b.area (← get).fill none)
  return figure :: (← shapeText b.area s.text textClass)

/-- The cells of a table, which wait in a ring as the words of a line do. -/
def tableCells (text : String) : Meaning (List String) := Ring.toList <$> wordsOf (Text.cells text)

/-- Draw a rectangle, with its text in the cells of a table. -/
def drawTable (columns : String) (s : ShapeCommand) : Work Fragment := do
  let b ← of (Meaning.corners (← pins) "Table" s.first s.second)
  let columns ← of (Meaning.columns "Table" columns)
  let figure ← ofComputed (Drawing.rectangle b.area (← get).fill none)
  if s.text.isEmpty then return [figure]
  let cells ← of (tableCells s.text)
  return [figure, ← textBlock b.area cells (tableColumns columns cells) .box]

/-- Draw a rectangle with round ends; the text stays clear of half of each round end. -/
def drawPill (s : ShapeCommand) : Work Fragment := do
  let b ← of (Meaning.corners (← pins) "Pill" s.first s.second)
  let a := b.area
  let radius := min a.width a.height / 2
  let figure ← ofComputed (Drawing.rectangle a (← get).fill (some radius))
  let room := { a with left := a.left + radius / 2, width := a.width - radius }
  return figure :: (← shapeText room s.text .box)

/-- Draw a hexagon; the text stays clear of half of each point. -/
def drawHex (s : ShapeCommand) : Work Fragment := do
  let b ← of (Meaning.corners (← pins) "Hex" s.first s.second)
  let a := b.area
  let inset := min a.width a.height / 2
  let figure ← outline "Hex" (Geometry.hexagon b)
  let room := { a with left := a.left + inset / 2, width := a.width - inset }
  return figure :: (← shapeText room s.text .box)

/-- Draw a parallelogram; the text is shifted by half of the skew. -/
def drawTiltBox (skew : String) (s : ShapeCommand) : Work Fragment := do
  let skew ← of (Meaning.number "TiltBox" "skew" skew)
  let b ← of (Meaning.corners (← pins) "TiltBox" s.first s.second)
  let figure ← outline "TiltBox" (Geometry.tilted skew b)
  let room := { b.area with left := b.left + skew / 2 }
  return figure :: (← shapeText room s.text .box)

/-- Draw a trapezoid. -/
def drawTrapBox (top bottom : String) (s : ShapeCommand) : Work Fragment := do
  let top ← of (Meaning.number "TrapBox" "top expansion" top)
  let bottom ← of (Meaning.number "TrapBox" "bottom expansion" bottom)
  let b ← of (Meaning.corners (← pins) "TrapBox" s.first s.second)
  let figure ← outline "TrapBox" (Geometry.trapezoid top bottom b)
  return figure :: (← shapeText b.area s.text .box)

/-- Draw a rectangle with a notch in one side. -/
def drawNotchBox (outward : Bool) (side : String) (s : ShapeCommand) : Work Fragment := do
  let command := (if outward then ShapeKind.boxOut else ShapeKind.boxIn).title
  let side ← of (Meaning.side command side)
  let b ← of (Meaning.corners (← pins) command s.first s.second)
  let figure ← outline command (Geometry.notched side outward b)
  return figure :: (← shapeText b.area s.text .box)

/-- Draw a shape with its text. -/
def ShapeCommand.draw (s : ShapeCommand) : Work Fragment :=
  match s.shape with
  | .box false => drawBox "Box" .box s
  | .box true => drawBox "SmallBox" .smallBox s
  | .table columns => drawTable columns s
  | .pill => drawPill s
  | .hex => drawHex s
  | .tiltBox skew => drawTiltBox skew s
  | .trapBox top bottom => drawTrapBox top bottom s
  | .notchBox outward side => drawNotchBox outward side s

/-- The ends of a path and whether it runs against the direction from `start` to `finish`. -/
def orient (flipped : Bool) (start finish : Point) : Point × Point × Bool :=
  let swapped := decide (finish.x < start.x)
  if swapped != flipped then (finish, start, swapped != flipped)
  else (start, finish, swapped != flipped)

/-- Draw a line with its text. -/
def LineCommand.draw (l : LineCommand) : Work Fragment := do
  let start ← of (Meaning.pin (← pins) l.kind.title l.start)
  let finish ← of (Meaning.pin (← pins) l.kind.title l.finish)
  let (first, last, rightToLeft) := orient l.kind.flipped start finish
  let style : Drawing.LineStyle := ⟨l.kind.arrow, rightToLeft, l.kind.flipped⟩
  let id ← nextLineId
  let path ← ofComputed (Drawing.linePath id first last style (← get).stroke)
  if l.text.isEmpty then return [path]
  let length := Binary64.hypotenuse (last.x - first.x) (last.y - first.y)
  let label := String.ofList (Text.expandBreaks l.text.toList)
  record ⟨.line, label, .line, length, 0, (← get).lineNumber⟩
  return [path, Drawing.lineText id (String.ofList (l.text.toList.map lineTextChar)) style]

end Pinboard
