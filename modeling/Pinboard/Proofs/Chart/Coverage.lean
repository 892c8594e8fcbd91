import Pinboard.Proofs.Chart.Extent
import Pinboard.Proofs.Chart.Omission

/-!
# What a canvas covers

A canvas begins at a fixed place left of and above the origin, and grows to the right and downwards only. Main
statement: the canvas of a program reaches beyond all of its pins on the right and below, and so it covers a pin
exactly if the pin is neither left of nor above the place where canvases begin (`interpret_covers_iff`).
-/

namespace Pinboard

/-- A canvas of a given size covers a point, on its edges as well. -/
structure Canvas.Covers (width height : Int) (p : Point) : Prop where
  left : inset ≤ p.x.worth
  top : inset ≤ p.y.worth
  right : p.x.worth ≤ inset + width
  bottom : p.y.worth ≤ inset + height

variable {program : String} {chart : Chart}

theorem Board.IsFinite.point {b : Board} (hb : b.IsFinite) : ∀ p ∈ b.pins.points, p.isFinite = true := by
  intro p hp
  obtain ⟨e, he, rfl⟩ := List.mem_map.1 hp
  exact hb.pins e he

/-- The canvas of a document reaches more than nine units beyond every pin on the right and below. -/
theorem Chart.exists_canvas (hb : chart.board.IsFinite) :
    ∃ document width height, chart.document = .ok document ∧
      document.attribute? "viewBox" = some (Document.viewBox width height) ∧
        ∀ p ∈ chart.board.pins.points,
          p.x.worth + 9 < Canvas.inset + width ∧ p.y.worth + 9 < Canvas.inset + height := by
  obtain ⟨width, height, hsize, hwidth, hheight⟩ := Canvas.exists_extents hb.point
  refine ⟨Document.root (20 + width) (20 + height) chart.fragments.flatten, 20 + width, 20 + height, ?_,
    Document.viewBox_root _ _ _, fun p hp => ?_⟩
  · rw [document, hsize]
    rfl
  · -- a canvas has ten units to spare beyond its extent, and an extent ends less than one unit before a pin
    have hx := hwidth.lt_add_one (List.mem_map_of_mem hp)
    have hy := hheight.lt_add_one (List.mem_map_of_mem hp)
    have hinset : (Canvas.inset : ℚ) = -10 := by norm_num [Canvas.inset]
    rw [hinset]
    push_cast
    constructor <;> linarith

/-- All pins of a program are inside the right and the lower edge of its canvas. The canvas covers those that are neither
left of nor above the place where it begins, and no others. -/
theorem interpret_covers_iff (h : interpret program = .ok chart) :
    ∃ document width height, chart.document = .ok document ∧
      document.attribute? "viewBox" = some (Document.viewBox width height) ∧
        ∀ p ∈ chart.board.pins.points,
          (p.x.worth < Canvas.inset + width ∧ p.y.worth < Canvas.inset + height) ∧
            (Canvas.Covers width height p ↔ Canvas.inset ≤ p.x.worth ∧ Canvas.inset ≤ p.y.worth) := by
  obtain ⟨hb, -⟩ := Chart.run_adds Board.start_isFinite h
  obtain ⟨document, width, height, hdocument, hview, hedges⟩ := Chart.exists_canvas hb
  refine ⟨document, width, height, hdocument, hview, fun p hp => ?_⟩
  obtain ⟨hx, hy⟩ := hedges p hp
  have hright : p.x.worth < Canvas.inset + width := by linarith
  have hbottom : p.y.worth < Canvas.inset + height := by linarith
  refine ⟨⟨hright, hbottom⟩, fun hcovers => ⟨hcovers.left, hcovers.top⟩, fun hbegin => ?_⟩
  exact ⟨hbegin.1, hbegin.2, hright.le, hbottom.le⟩

/-- What a program comes to as far as its canvas goes: the points of its pins and the view box of its document. -/
def viewOf (program : String) : Option (List Point × Option String) :=
  match interpret program with
  | .ok chart =>
    match chart.document with
    | .ok document => some (chart.board.pins.points, document.attribute? "viewBox")
    | .error _ => none
  | .error _ => none

theorem exists_of_viewOf {points : List Point} {view : Option String} (h : viewOf program = some (points, view)) :
    ∃ chart document, interpret program = .ok chart ∧ chart.document = .ok document ∧
      chart.board.pins.points = points ∧ document.attribute? "viewBox" = view := by
  unfold viewOf at h
  cases hchart : interpret program with
  | error fault => simp [hchart] at h
  | ok chart =>
    cases hdocument : chart.document with
    | error fault => simp [hchart, hdocument] at h
    | ok document =>
      simp only [hchart, hdocument, Option.some.injEq, Prod.mk.injEq] at h
      exact ⟨chart, document, rfl, hdocument, h⟩

theorem Binary64.worth_eq_intCast {x : Binary64} {n : Int} (h : x.exact = n * unitsPerOne) : x.worth = n := by
  rw [worth, h, div_eq_iff cast_unitsPerOne_pos.ne']
  push_cast
  rfl

/-- Of two pins one lies on the upper edge and inside the right one, and the other one left of the canvas. -/
theorem interpret_covers_iff_two_pins :
    ∃ chart document width height, interpret "Pin a 150.5 -10\nPin b -11 0" = .ok chart ∧
      chart.document = .ok document ∧ document.attribute? "viewBox" = some (Document.viewBox width height) ∧
        Document.viewBox width height = "-10 -10 170 120" ∧ chart.board.pins.points = [⟨150.5, -10⟩, ⟨-11, 0⟩] ∧
          Canvas.Covers width height ⟨150.5, -10⟩ ∧ ¬Canvas.Covers width height ⟨-11, 0⟩ := by
  have hview : viewOf "Pin a 150.5 -10\nPin b -11 0" =
      some ([⟨150.5, -10⟩, ⟨-11, 0⟩], some "-10 -10 170 120") := by decide +kernel
  have hten : (-10 : Binary64).worth = (-10 : Int) := Binary64.worth_eq_intCast (by decide +kernel)
  have heleven : (-11 : Binary64).worth = (-11 : Int) := Binary64.worth_eq_intCast (by decide +kernel)
  have hpositive : (0 : ℚ) ≤ (150.5 : Binary64).worth := by
    have hexact : 0 ≤ (150.5 : Binary64).exact := by decide +kernel
    exact div_nonneg (by exact_mod_cast hexact) Binary64.cast_unitsPerOne_pos.le
  obtain ⟨chart, document, h, hdocument, hpoints, hattribute⟩ := exists_of_viewOf hview
  obtain ⟨document', width, height, hdocument', hattribute', hpins⟩ := interpret_covers_iff h
  cases hdocument.symm.trans hdocument'
  obtain ⟨-, hfirst⟩ := hpins ⟨150.5, -10⟩ (by simp [hpoints])
  obtain ⟨-, hsecond⟩ := hpins ⟨-11, 0⟩ (by simp [hpoints])
  refine ⟨chart, document, width, height, h, hdocument, hattribute', ?_, hpoints, hfirst.2 ⟨?_, ?_⟩, fun hcovers => ?_⟩
  · exact Option.some.inj (hattribute'.symm.trans hattribute)
  · norm_num [Canvas.inset]
    linarith
  · rw [hten]
    norm_num [Canvas.inset]
  · have hleft := (hsecond.1 hcovers).1
    rw [heleven] at hleft
    norm_num [Canvas.inset] at hleft

/-- A pin left of the place where canvases begin is in the table of a program and outside of its canvas. -/
theorem pin_outside_canvas :
    ∃ chart document, interpret "Pin a -50 0" = .ok chart ∧ chart.board.pins.points = [⟨-50, 0⟩] ∧
      chart.document = .ok document ∧ document.attribute? "viewBox" = some (Document.viewBox 120 120) ∧
        ¬Canvas.Covers 120 120 ⟨-50, 0⟩ := by
  have hview : viewOf "Pin a -50 0" = some ([⟨-50, 0⟩], some (Document.viewBox 120 120)) := by decide +kernel
  have hfifty : (-50 : Binary64).worth = (-50 : Int) := Binary64.worth_eq_intCast (by decide +kernel)
  obtain ⟨chart, document, h, hdocument, hpoints, hattribute⟩ := exists_of_viewOf hview
  refine ⟨chart, document, h, hpoints, hdocument, hattribute, fun hcovers => ?_⟩
  have hleft := hcovers.left
  rw [hfifty] at hleft
  norm_num [Canvas.inset] at hleft

end Pinboard
