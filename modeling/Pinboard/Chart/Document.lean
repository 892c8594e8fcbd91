import Pinboard.Chart.Program
import Pinboard.Markup.Printer

/-!
# The document of a chart

The document has a style sheet, the markers for arrows, and the elements of the chart on lines of their
own. Its canvas covers every pin, with a margin, and is never smaller than a minimum.
-/

namespace Pinboard

namespace Canvas

/-- The least extent of the pins that a canvas is made for. -/
def minimum : Int := 100

/-- What is added to the extent of the pins. -/
def margin : Int := 20

/-- The left and top edge of a canvas. -/
def inset : Int := -10

/-- An extent that reaches up to a coordinate as well. -/
def grow (extent : Int) (x : Binary64) : Computed Int :=
  if x.exceeds extent then x.truncate else .ok extent

/-- The extent of some points from the origin to the right and downwards. -/
def extent (points : List Point) : Computed (Int × Int) :=
  points.foldlM (fun e p => do return (← grow e.1 p.x, ← grow e.2 p.y)) (minimum, minimum)

/-- The width and height of the canvas for some points. -/
def size (points : List Point) : Computed (Int × Int) := do
  let (width, height) ← extent points
  return (width + margin, height + margin)

end Canvas

namespace Document

/-- The style sheet of a document. -/
def styles : String :=
  ".lineText \x7bfont: 0.5em sans-serif;\x7d "
    ++ ".boxText \x7bfont: 0.75em sans-serif; display:table-cell;\x7d "
    ++ ".boxTextSmall \x7bfont: 0.25em sans-serif; display:table-cell;\x7d "
    ++ "textPath \x7btext-anchor: middle;\x7d "
    ++ ".line \x7bfill: none; stroke-width: 1px; stroke: #888;\x7d "
    ++ ".arrowHead \x7bfill: #888;\x7d "
    ++ "rect \x7bfill: #eef; stroke-width: 1px; stroke: #888;\x7d "
    ++ "polygon \x7bfill: #eef; stroke-width: 1px; stroke: #888;\x7d "

/-- The definition of the style sheet. -/
def styleDefinitions : Element :=
  .branch "defs" [] [.node "style" [("type", "text/css")] styles []]

/-- The part of the plane that a document shows. -/
def viewBox (width height : Int) : String :=
  " ".intercalate (([Canvas.inset, Canvas.inset, width, height]).map integerText)

/-- The document with a canvas of the given size around some elements. -/
def root (width height : Int) (elements : List Element) : Element :=
  .onLines "svg"
    [("xmlns:xhtml", "http://www.w3.org/1999/xhtml"), ("xmlns:xlink", "http://www.w3.org/1999/xlink"),
     ("xmlns", "http://www.w3.org/2000/svg"), ("viewBox", viewBox width height)]
    "\n" (styleDefinitions :: Drawing.markers :: elements)

end Document

/-- The document of a chart. -/
def Chart.document (chart : Chart) : Computed Element := do
  let (width, height) ← Canvas.size chart.board.pins.points
  return Document.root width height chart.fragments.flatten

/-- The document of a program as text. -/
def render (program : String) : Except ProgramFault String := do
  let chart ← interpret program
  match chart.document with
  | .ok document => return Markup.print document
  | .error fault => throw (.breakdown (.arithmetic fault))

end Pinboard
