import Pinboard.Drawing.Line
import Pinboard.Proofs.Numeric.Exact

/-!
# What is finite can be drawn

A numeral exists for every finite number, so a figure has an element as soon as its numbers are finite. The
only other thing that drawing needs is a number of columns to divide by, which has to be positive and
in the range of numbers (`textBlock_ok`, `textBlock_error`).
-/

namespace Pinboard

open Binary64 (ofInt numberText)

theorem Binary64.numberText_ok {x : Binary64} (hx : x.isFinite = true) : ∃ text, numberText x = .ok text := by
  obtain ⟨s, a, rfl⟩ := isFinite_iff.1 hx
  exact ⟨_, rfl⟩

theorem Point.isFinite_iff (p : Point) : p.isFinite = true ↔ p.x.isFinite = true ∧ p.y.isFinite = true := by
  rw [Point.isFinite, Bool.and_eq_true]

/-- An area with a finite place and a finite size. -/
structure Area.IsFinite (a : Area) : Prop where
  left : a.left.isFinite = true
  top : a.top.isFinite = true
  width : a.width.isFinite = true
  height : a.height.isFinite = true

namespace Drawing

theorem areaAttributes_ok {a : Area} (h : a.IsFinite) : ∃ place, areaAttributes a = .ok place := by
  obtain ⟨x, hx⟩ := Binary64.numberText_ok h.left
  obtain ⟨y, hy⟩ := Binary64.numberText_ok h.top
  obtain ⟨width, hw⟩ := Binary64.numberText_ok h.width
  obtain ⟨height, hh⟩ := Binary64.numberText_ok h.height
  rw [areaAttributes, hx, hy, hw, hh]
  exact ⟨_, rfl⟩

theorem rectangle_ok {a : Area} (h : a.IsFinite) (fill : Option String) (radius : Option Binary64)
    (hr : ∀ r, radius = some r → r.isFinite = true) : ∃ figure, rectangle a fill radius = .ok figure := by
  obtain ⟨place, hp⟩ := areaAttributes_ok h
  rw [rectangle, hp]
  cases radius with
  | none => exact ⟨_, rfl⟩
  | some r =>
    obtain ⟨rx, hx⟩ := Binary64.numberText_ok (hr r rfl)
    simp only [hx]
    exact ⟨_, rfl⟩

theorem pointText_ok {p : Point} (h : p.isFinite = true) : ∃ text, pointText p = .ok text := by
  obtain ⟨hx, hy⟩ := (Point.isFinite_iff p).1 h
  obtain ⟨x, hx⟩ := Binary64.numberText_ok hx
  obtain ⟨y, hy⟩ := Binary64.numberText_ok hy
  rw [pointText, hx, hy]
  exact ⟨_, rfl⟩

theorem pointTexts_ok {points : List Point} (h : ∀ p ∈ points, p.isFinite = true) :
    ∃ texts, points.mapM pointText = .ok texts := by
  induction points with
  | nil => exact ⟨[], rfl⟩
  | cons p points ih =>
    obtain ⟨hp, hps⟩ := List.forall_mem_cons.1 h
    obtain ⟨text, ht⟩ := pointText_ok hp
    obtain ⟨texts, hts⟩ := ih hps
    rw [List.mapM_cons, ht, hts]
    exact ⟨_, rfl⟩

theorem polygon_ok {points : List Point} (h : ∀ p ∈ points, p.isFinite = true) (fill : Option String) :
    ∃ figure, polygon points fill = .ok figure := by
  obtain ⟨texts, ht⟩ := pointTexts_ok h
  rw [polygon, ht]
  exact ⟨_, rfl⟩

theorem linePath_ok {start finish : Point} (hs : start.isFinite = true) (hf : finish.isFinite = true) (id : String)
    (style : LineStyle) (stroke : Option String) : ∃ path, linePath id start finish style stroke = .ok path := by
  obtain ⟨first, h1⟩ := pointText_ok hs
  obtain ⟨last, h2⟩ := pointText_ok hf
  rw [linePath, h1, h2]
  exact ⟨_, rfl⟩

theorem textBlock_ok {a : Area} (h : a.IsFinite) (texts : List String) {columns : Nat} (hpos : 0 < columns)
    (hrange : (ofInt columns).isFinite = true) (css : String) : ∃ block, textBlock a texts columns css = .ok block := by
  obtain ⟨place, hp⟩ := areaAttributes_ok h
  obtain ⟨height, hh⟩ := Binary64.numberText_ok h.height
  obtain ⟨share, hs, hfinite⟩ := Binary64.divideBy_ok h.width hpos hrange
  obtain ⟨width, hw⟩ := Binary64.numberText_ok hfinite
  rw [textBlock, hp, hh, hs]
  simp only [bind, Except.bind, hw]
  exact ⟨_, rfl⟩

theorem textBlock_error {a : Area} (h : a.IsFinite) (texts : List String) {columns : Nat}
    (hrange : (ofInt columns).isFinite = false) (css : String) :
    textBlock a texts columns css = .error .integerTooLarge := by
  obtain ⟨place, hp⟩ := areaAttributes_ok h
  obtain ⟨height, hh⟩ := Binary64.numberText_ok h.height
  rw [textBlock, hp, hh, Binary64.divideBy_error hrange]
  rfl

end Drawing
end Pinboard
