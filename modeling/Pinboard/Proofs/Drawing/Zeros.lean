import Pinboard.Proofs.Drawing.Finite
import Pinboard.Proofs.Numeric.Zeros

/-!
# The sign of a zero is not drawn

A zero has the same numeral with and without a sign, so figures and blocks of text at the same places are the same
elements: `Drawing.rectangle_congr`, `Drawing.polygon_congr` and `Drawing.textBlock_congr`.
-/

namespace Pinboard

open Binary64 (Same numberText)

theorem Binary64.Same.numberText_eq {x y : Binary64} (h : Same x y) : numberText x = numberText y := by
  cases h with
  | refl _ => rfl
  | zeros s t => cases s <;> cases t <;> decide +kernel

/-- Two areas of one size at the same place. -/
structure Area.Same (a a' : Area) : Prop where
  left : Binary64.Same a.left a'.left
  top : Binary64.Same a.top a'.top
  width : a.width = a'.width
  height : a.height = a'.height

namespace Drawing

variable {a a' : Area} {p p' : Point} {points points' : List Point}

theorem areaAttributes_congr (h : a.Same a') : areaAttributes a = areaAttributes a' := by
  rw [areaAttributes, areaAttributes, h.left.numberText_eq, h.top.numberText_eq, h.width, h.height]

theorem rectangle_congr (h : a.Same a') (fill : Option String) (radius : Option Binary64) :
    rectangle a fill radius = rectangle a' fill radius := by
  rw [rectangle, rectangle, areaAttributes_congr h]

theorem textBlock_congr (h : a.Same a') (texts : List String) (columns : Nat) (css : String) :
    textBlock a texts columns css = textBlock a' texts columns css := by
  rw [textBlock, textBlock, areaAttributes_congr h, h.width, h.height]

theorem pointText_congr (hx : Binary64.Same p.x p'.x) (hy : Binary64.Same p.y p'.y) : pointText p = pointText p' := by
  rw [pointText, pointText, hx.numberText_eq, hy.numberText_eq]

theorem polygon_congr (h : List.Forall₂ (fun p p' => pointText p = pointText p') points points')
    (fill : Option String) : polygon points fill = polygon points' fill := by
  have htexts : points.mapM pointText = points'.mapM pointText := by
    induction h with
    | nil => rfl
    | cons hp _ ih => rw [List.mapM_cons, List.mapM_cons, hp, ih]
  rw [polygon, polygon, htexts]

end Drawing
end Pinboard
