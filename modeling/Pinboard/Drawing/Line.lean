import Pinboard.Drawing.TextBlock

/-!
# Lines and arrows

A line is a path with an identifier, and its text is bound to the path by that identifier. An arrow has
one head; which end it is on depends on the direction in which the path runs. `markers` holds the heads
that the paths refer to.
-/

namespace Pinboard.Drawing

open Binary64 (numberText)

/-- How a line is drawn. -/
structure LineStyle where
  /-- Whether the line has a head. -/
  arrow : Bool
  /-- Whether the line runs against the direction of its path. -/
  rightToLeft : Bool
  /-- Whether the text stands upside down. -/
  flipped : Bool
deriving DecidableEq, Repr

/-- The reference of a path to the head of its arrow. -/
def headReference (style : LineStyle) : List (String × String) :=
  if style.arrow then
    if style.rightToLeft then [("marker-start", "url(#arrow_r2l)")]
    else [("marker-end", "url(#arrow_l2r)")]
  else []

/-- The straight path between two points. -/
def linePath (id : String) (start finish : Point) (style : LineStyle) (stroke : Option String) :
    Computed Element := do
  let from' ← pointText start
  let to' ← pointText finish
  return .leaf "path"
    (headReference style ++ colourStyle "stroke:#" stroke
      ++ [("class", "line"), ("id", id), ("d", "M" ++ from' ++ "L" ++ to')])

/-- The turn of text that stands upside down. -/
def flippedText : String := "transform-origin:center;transform-box:fill-box;transform:rotateZ(180deg);"

/-- The text along a path, kept clear of the head. -/
def lineText (id text : String) (style : LineStyle) : Element :=
  let shift := if style.arrow then [("dx", if style.rightToLeft then "5" else "-5")] else []
  let turn := if style.flipped then [("style", flippedText)] else []
  .branch "text" (("dy", "-2") :: shift ++ turn)
    [withText "textPath"
      [("xlink:href", "#" ++ id), ("startOffset", "50%"), ("class", "lineText")] text]

/-- The head of an arrow: its identifier, the place of its tip, and its outline. -/
def arrowHead (id tip outline : String) : Element :=
  .branch "marker"
    [("id", id), ("viewBox", "0 0 10 10"), ("refX", tip), ("refY", "5"), ("markerUnits", "strokeWidth"),
     ("markerWidth", "10"), ("markerHeight", "10"), ("orient", "auto"), ("class", "arrowHead")]
    [.leaf "path" [("d", outline)]]

/-- A dot to mark a point. -/
def dotMarker : Element :=
  .branch "marker"
    [("id", "dot"), ("viewBox", "-10 -10 20 20"), ("refX", "0"), ("refY", "0"),
     ("markerUnits", "strokeWidth"), ("markerWidth", "10"), ("markerHeight", "10"), ("orient", "auto"),
     ("style", "fill:#333")]
    [.leaf "circle" [("cx", "0"), ("cy", "0"), ("r", "3")]]

/-- The definitions of the dot and of the two heads. -/
def markers : Element :=
  .onLines "defs" [] ""
    [dotMarker, arrowHead "arrow_l2r" "10" "M 0 0 L 10 5 L 0 10 z",
     arrowHead "arrow_r2l" "0" "M 10 0 L 0 5 L 10 10 z"]

end Pinboard.Drawing
