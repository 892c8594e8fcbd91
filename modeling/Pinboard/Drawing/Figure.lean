import Pinboard.Geometry
import Pinboard.Numeric.Decimal
import Pinboard.Markup.Element

/-!
# Figures

Rectangles and polygons as markup elements. A figure has a style of its own only where a colour is set.
-/

namespace Pinboard

/-- A rectangle by its top left corner and its size. -/
structure Area where
  left : Binary64
  top : Binary64
  width : Binary64
  height : Binary64
deriving DecidableEq

/-- The area between the edges of a rectangle. -/
def Bounds.area (b : Bounds) : Area := ⟨b.left, b.top, b.right - b.left, b.bottom - b.top⟩

namespace Drawing

open Binary64 (numberText)

/-- The style attribute for a colour that may be missing; an empty colour counts as missing. -/
def colourStyle (property : String) (colour : Option String) : List (String × String) :=
  match colour with
  | none => []
  | some colour => if colour.isEmpty then [] else [("style", property ++ colour)]

/-- The style attribute of a figure. -/
def fillStyle (fill : Option String) : List (String × String) := colourStyle "fill: #" fill

/-- The attributes that place an area. -/
def areaAttributes (a : Area) : Computed (List (String × String)) := do
  let x ← numberText a.left
  let y ← numberText a.top
  let width ← numberText a.width
  let height ← numberText a.height
  return [("x", x), ("y", y), ("width", width), ("height", height)]

/-- A rectangle, with rounded corners if a radius is given. -/
def rectangle (a : Area) (fill : Option String) (radius : Option Binary64) : Computed Element := do
  let place ← areaAttributes a
  let corners ← match radius with
    | none => pure []
    | some radius => do
      let rx ← numberText radius
      pure [("rx", rx), ("ry", rx)]
  return .leaf "rect" (place ++ corners ++ fillStyle fill)

/-- A point as the two numbers of an attribute. -/
def pointText (p : Point) : Computed String := do
  let x ← numberText p.x
  let y ← numberText p.y
  return x ++ "," ++ y

/-- A closed outline through the given points. -/
def polygon (points : List Point) (fill : Option String) : Computed Element := do
  let texts ← points.mapM pointText
  return .leaf "polygon" (("points", " ".intercalate texts) :: fillStyle fill)

end Drawing
end Pinboard
