import Pinboard.Drawing.Figure
import Pinboard.Text.Split

/-!
# Blocks of text

A block of text is a table of cells, centred in an area and wrapped by the browser. The cells fill the
rows from left to right; only the last row may be short. Lines between cells are drawn on the cell
borders: every cell but the one in the last column has one on its right, and the cells of the first of
several columns' row have one below. A single cell has none.
-/

namespace Pinboard.Drawing

open Binary64 (numberText)

/-- An element with a text in which every break has become a `br` child. -/
def withText (tag : String) (attributes : List (String × String)) (text : String) : Element :=
  match Text.parts Text.cutBreaks text with
  | [] => .leaf tag attributes
  | first :: rest =>
    .node tag attributes first (rest.map fun part => (.leaf "xhtml:br" [], part))

/-- A list cut into lists of `size`, the last one with what is left; `count` bounds their number. -/
def rowsWithin {α : Type} (size : Nat) : Nat → List α → List (List α)
  | 0, _ => []
  | _, [] => []
  | count + 1, items => items.take size :: rowsWithin size count (items.drop size)

/-- A list cut into lists of `size`, the last one with what is left. -/
def rowsOf {α : Type} (size : Nat) (items : List α) : List (List α) :=
  rowsWithin size items.length items

/-- What the cells of a block have in common. -/
structure CellStyle where
  columns : Nat
  /-- The number of cells of the block. -/
  count : Nat
  /-- The width of a column, in numerals. -/
  width : String
  css : String

/-- The borders and padding of a cell in a row of the block. -/
def cellEdge (style : CellStyle) (firstRow : Bool) (column : Nat) : String :=
  if style.count < 2 then ""
  else
    (if column + 1 < style.columns then "border-right:thin solid rgb(0,0,0, .4); " else "")
      ++ (if 1 < style.columns then "padding: 0 .3em 0 .3em; " else "")
      ++ (if firstRow && decide (1 < style.columns) then "border-bottom:thin solid rgb(0,0,0, .4); " else "")

/-- A cell of a block. -/
def cell (style : CellStyle) (firstRow : Bool) (column : Nat) (text : String) : Element :=
  .branch "xhtml:div"
    [("style", "display: table-cell; " ++ cellEdge style firstRow column ++ "vertical-align: middle;")]
    [withText "xhtml:div"
      [("style", "color:black; text-align:center; width: " ++ style.width ++ "px;"), ("class", style.css)]
      text]

/-- A row of a block. -/
def row (style : CellStyle) (firstRow : Bool) (texts : List String) : Element :=
  .branch "xhtml:div" [("style", "display: table-row")]
    (texts.mapIdx fun column text => cell style firstRow column text)

/-- The rows of a block. -/
def rows (style : CellStyle) (texts : List String) : List Element :=
  (rowsOf style.columns texts).mapIdx fun index row' => row style (index == 0) row'

/-- Cells of text in a table of so many columns, centred in an area. -/
def textBlock (a : Area) (texts : List String) (columns : Nat) (css : String) : Computed Element := do
  let place ← areaAttributes a
  let height ← numberText a.height
  let width ← numberText (← a.width.divideBy columns)
  let style : CellStyle := ⟨columns, texts.length, width, css⟩
  let table := Element.branch "xhtml:div"
    [("style", "display: table; height: " ++ height ++ "px; margin: auto; padding: 0 1px 0 1px;")]
    (rows style texts)
  return .branch "foreignObject" (place ++ [("transform", "translate(0,0)")]) [table]

end Pinboard.Drawing
