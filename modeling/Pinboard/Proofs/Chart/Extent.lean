import Mathlib.Order.Bounds.Basic
import Mathlib.Tactic.Linarith
import Pinboard.Proofs.Chart.Canvas
import Pinboard.Proofs.Numeric.Worth

/-!
# The extent of a canvas

The extent of some coordinates is the largest of a minimum and of their floors (`Canvas.IsExtent`), the coordinates
taken as the rational numbers that they are. Main statement: a canvas is as large as the extents of its points and a
margin, so that it does not depend on the order of the points, does not shrink when points are added, and reaches
beyond every point (`Canvas.size_isExtent`).
-/

namespace Pinboard.Canvas

variable {coordinates : List Binary64} {points : List Point} {extent : Int}

/-- The largest of the minimum and the floors of some coordinates. -/
def IsExtent (coordinates : List Binary64) (extent : Int) : Prop :=
  IsGreatest (insert 100 {n | ∃ x ∈ coordinates, n = ⌊x.worth⌋}) extent

theorem floor_eq (x : Binary64) : x.floor = ⌊x.worth⌋ := (Binary64.floor_worth x).symm

/-- What the walk over some coordinates comes to is their extent. -/
theorem isExtent_reach (coordinates : List Binary64) : IsExtent coordinates (reach (coordinates.map (·.floor))) := by
  obtain ⟨hminimum, hfloors⟩ := reach_le_iff.1 (Int.le_refl (reach (coordinates.map (·.floor))))
  constructor
  · -- if it were none of them, less would be enough
    by_contra hnone
    have hless : reach (coordinates.map (·.floor)) ≤ reach (coordinates.map (·.floor)) - 1 := by
      refine reach_le_iff.2 ⟨?_, fun c hc => ?_⟩
      · have hne : reach (coordinates.map (·.floor)) ≠ minimum := fun h => hnone (.inl h)
        omega
      · obtain ⟨x, hx, rfl⟩ := List.mem_map.1 hc
        have hne : reach (coordinates.map (·.floor)) ≠ x.floor := fun h => hnone (.inr ⟨x, hx, h.trans (floor_eq x)⟩)
        have hle := hfloors _ hc
        omega
    omega
  · rintro n (rfl | ⟨x, hx, rfl⟩)
    · exact hminimum
    · rw [← floor_eq]
      exact hfloors _ (List.mem_map_of_mem hx)

/-- An extent ends less than one unit before each of its coordinates. -/
theorem IsExtent.lt_add_one (h : IsExtent coordinates extent) {x : Binary64} (hx : x ∈ coordinates) :
    x.worth < extent + 1 := by
  have hle : ⌊x.worth⌋ ≤ extent := h.2 (.inr ⟨x, hx, rfl⟩)
  have hcast : (⌊x.worth⌋ : ℚ) ≤ extent := by exact_mod_cast hle
  have hfloor := Int.lt_floor_add_one x.worth
  linarith

/-- More coordinates have no smaller extent. -/
theorem IsExtent.mono {more : List Binary64} {larger : Int} (h : IsExtent coordinates extent)
    (h' : IsExtent more larger) (hsub : coordinates ⊆ more) : extent ≤ larger := by
  refine IsGreatest.mono h h' (Set.insert_subset_insert ?_)
  rintro n ⟨x, hx, rfl⟩
  exact ⟨x, hsub hx, rfl⟩

theorem exists_extents (hpoints : ∀ p ∈ points, p.isFinite = true) :
    ∃ width height, size points = .ok (20 + width, 20 + height) ∧
      IsExtent (points.map (·.x)) width ∧ IsExtent (points.map (·.y)) height := by
  have hwidth := isExtent_reach (points.map (·.x))
  have hheight := isExtent_reach (points.map (·.y))
  have hsize := size_eq hpoints
  rw [List.map_map] at hwidth hheight
  rw [Int.add_comm _ margin, Int.add_comm _ margin] at hsize
  exact ⟨_, _, hsize, hwidth, hheight⟩

/-- A canvas has the extents of its points and a margin, in whatever order the points stand. With more points it is no
smaller, and every point is more than nine units inside its right and lower edges. -/
theorem size_isExtent (hpoints : ∀ p ∈ points, p.isFinite = true) :
    ∃ width height, size points = .ok (20 + width, 20 + height) ∧
      IsExtent (points.map (·.x)) width ∧ IsExtent (points.map (·.y)) height ∧
      (∀ reordered, reordered.Perm points → size reordered = .ok (20 + width, 20 + height)) ∧
      (∀ more, (∀ p ∈ more, p.isFinite = true) → points ⊆ more →
        ∃ wider higher, size more = .ok (wider, higher) ∧ 20 + width ≤ wider ∧ 20 + height ≤ higher) ∧
      ∀ p ∈ points, p.x.worth + 9 < inset + (20 + width) ∧ p.y.worth + 9 < inset + (20 + height) := by
  obtain ⟨width, height, hsize, hwidth, hheight⟩ := exists_extents hpoints
  refine ⟨width, height, hsize, hwidth, hheight, fun reordered hperm => ?_, fun more hmore hsub => ?_, fun p hp => ?_⟩
  · obtain ⟨dimensions, h, h'⟩ := size_congr hpoints fun _ => hperm.mem_iff
    rw [h', ← h, hsize]
  · obtain ⟨wider, higher, hlarger, hwider, hhigher⟩ := exists_extents hmore
    have hwide := hwidth.mono hwider (List.map_subset _ hsub)
    have hhigh := hheight.mono hhigher (List.map_subset _ hsub)
    exact ⟨_, _, hlarger, by omega, by omega⟩
  · have hx := hwidth.lt_add_one (List.mem_map_of_mem hp)
    have hy := hheight.lt_add_one (List.mem_map_of_mem hp)
    have hinset : (inset : ℚ) = -10 := by norm_num [inset]
    rw [hinset]
    constructor <;> linarith

/-- Points with fractions, below zero, and beyond the last number with a fraction. -/
theorem size_isExtent_far_points :
    ∃ width height, size [⟨150.7, -3.5⟩, ⟨-7, 9007199254740994⟩] = .ok (20 + width, 20 + height) ∧ width = 150 ∧
      height = 9007199254740994 ∧ IsExtent [150.7, -7] width ∧ IsExtent [-3.5, 9007199254740994] height ∧
      size [⟨-7, 9007199254740994⟩, ⟨150.7, -3.5⟩] = .ok (20 + width, 20 + height) := by
  have hpoints : ∀ p ∈ [(⟨150.7, -3.5⟩ : Point), ⟨-7, 9007199254740994⟩], p.isFinite = true := by decide +kernel
  have hcanvas : size [⟨150.7, -3.5⟩, ⟨-7, 9007199254740994⟩] = .ok (170, 9007199254741014) := by decide +kernel
  obtain ⟨width, height, hsize, hwidth, hheight, hreordered, -, -⟩ := size_isExtent hpoints
  obtain ⟨hw, hh⟩ := Prod.mk.inj (Except.ok.inj (hcanvas.symm.trans hsize))
  exact ⟨width, height, hsize, by omega, by omega, hwidth, hheight, hreordered _ (.swap _ _ _)⟩

end Pinboard.Canvas
