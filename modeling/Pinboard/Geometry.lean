import Pinboard.Numeric.Binary64

/-!
# Points and outlines

Points of the plane, the projection of a point onto a line, and the corner points of the shapes that
are drawn between two corners. All outlines but the hexagon's run clockwise from the top left corner;
the vertical axis points down.
-/

namespace Pinboard

/-- A point of the plane. -/
structure Point where
  x : Binary64
  y : Binary64
deriving DecidableEq

/-- Whether both coordinates of a point are finite. -/
def Point.isFinite (p : Point) : Bool := p.x.isFinite && p.y.isFinite

/-- The four edges of an upright rectangle. -/
structure Bounds where
  left : Binary64
  top : Binary64
  right : Binary64
  bottom : Binary64
deriving DecidableEq

/-- A side of a rectangle. -/
inductive Side
  | left
  | right
  | top
  | bottom
deriving DecidableEq, Repr

namespace Side

/-- The vector of length one that points away from a rectangle on a side. -/
def normal : Side → Point
  | .left => ⟨-1, 0⟩
  | .right => ⟨1, 0⟩
  | .top => ⟨0, -1⟩
  | .bottom => ⟨0, 1⟩

/-- Whether a side runs from top to bottom. -/
def isVertical : Side → Bool
  | .left | .right => true
  | .top | .bottom => false

end Side

namespace Geometry

/-- The foot of the perpendicular from `p` onto the line through `a` and `b`; where `a` and `b` are one
point that point is it. -/
def project (a b p : Point) : Point :=
  let ex := b.x - a.x
  let ey := b.y - a.y
  let dot := ex * (p.x - a.x) + ey * (p.y - a.y)
  let square := ex * ex + ey * ey
  let divisor := if square.equal 0 then 1 else square
  ⟨a.x + dot * ex / divisor, a.y + dot * ey / divisor⟩

/-- The slope of the sides of a notch: the computed tangent of 45 degrees, the largest number below one. -/
def notchSlope : Binary64 := 0.9999999999999999

/-- How deep a notch is whose base is the middle half of a side. -/
def notchDepth (sideLength : Binary64) : Binary64 := sideLength / 4 * notchSlope

/-- The hexagon with flat top and bottom and a point on the left and on the right. -/
def hexagon (b : Bounds) : List Point :=
  let inset := min (b.right - b.left) (b.bottom - b.top) / 2
  let middle := (b.top + b.bottom) / 2
  [⟨b.left + inset, b.top⟩, ⟨b.right - inset, b.top⟩, ⟨b.right, middle⟩,
   ⟨b.right - inset, b.bottom⟩, ⟨b.left + inset, b.bottom⟩, ⟨b.left, middle⟩]

/-- The parallelogram whose top edge is shifted by `skew`. -/
def tilted (skew : Binary64) (b : Bounds) : List Point :=
  [⟨b.left + skew, b.top⟩, ⟨b.right + skew, b.top⟩, ⟨b.right, b.bottom⟩, ⟨b.left, b.bottom⟩]

/-- The trapezoid whose top and bottom edges are longer on each side by the given amounts. -/
def trapezoid (topExpansion bottomExpansion : Binary64) (b : Bounds) : List Point :=
  [⟨b.left - topExpansion, b.top⟩, ⟨b.right + topExpansion, b.top⟩,
   ⟨b.right + bottomExpansion, b.bottom⟩, ⟨b.left - bottomExpansion, b.bottom⟩]

/-- The three points of a notch in the given side, clockwise: where it begins, its tip, where it ends. -/
def notch (side : Side) (outward : Bool) (b : Bounds) : List Point :=
  let cx := (b.left + b.right) / 2
  let cy := (b.top + b.bottom) / 2
  let halfWidth := (b.right - b.left) / 4
  let halfHeight := (b.bottom - b.top) / 4
  let sign : Binary64 := if outward then 1 else -1
  let sideLength := if side.isVertical then b.bottom - b.top else b.right - b.left
  let depth := notchDepth sideLength * sign
  match side with
  | .top => [⟨cx - halfWidth, b.top⟩, ⟨cx, b.top + side.normal.y * depth⟩, ⟨cx + halfWidth, b.top⟩]
  | .right => [⟨b.right, cy - halfHeight⟩, ⟨b.right + side.normal.x * depth, cy⟩, ⟨b.right, cy + halfHeight⟩]
  | .bottom =>
    [⟨cx + halfWidth, b.bottom⟩, ⟨cx, b.bottom + side.normal.y * depth⟩, ⟨cx - halfWidth, b.bottom⟩]
  | .left => [⟨b.left, cy + halfHeight⟩, ⟨b.left + side.normal.x * depth, cy⟩, ⟨b.left, cy - halfHeight⟩]

/-- The rectangle with a notch in one side. -/
def notched (side : Side) (outward : Bool) (b : Bounds) : List Point :=
  let notchOn (s : Side) : List Point := if s = side then notch side outward b else []
  [⟨b.left, b.top⟩] ++ notchOn .top ++ [⟨b.right, b.top⟩] ++ notchOn .right
    ++ [⟨b.right, b.bottom⟩] ++ notchOn .bottom ++ [⟨b.left, b.bottom⟩] ++ notchOn .left

end Geometry
end Pinboard
