import Pinboard.Chart.Document
import Pinboard.Proofs.Chart.Pins
import Pinboard.Proofs.Numeric.Exact

/-!
# How large a canvas is

A canvas is as large as the farthest point needs it, and never smaller than a minimum: its size is found by a
walk over the points, but comes to the largest of their floors (`Canvas.size_eq`). So it depends on which
points there are, and not on their order or number (`Canvas.size_congr`).
-/

namespace Pinboard

/-- The largest integer that is no larger than a finite number. -/
def Binary64.floor (x : Binary64) : Int := x.exact / unitsPerOne

namespace Canvas

variable {points : List Point}

/-! ## The walk over the points -/

/-- Growing up to a coordinate is taking the larger of the extent and its floor. -/
theorem grow_eq {x : Binary64} {extent : Int} (hx : x.isFinite = true) (hextent : 0 ≤ extent) :
    grow extent x = .ok (max extent x.floor) := by
  obtain ⟨s, a, rfl⟩ := Binary64.isFinite_iff.1 hx
  have hpos : (0 : Int) < (unitsPerOne : Int) := by exact_mod_cast unitsPerOne_pos
  have hexact : (Binary64.finite s a).exact = Binary64.signed s a.units := rfl
  rw [grow, Binary64.exceeds, Binary64.floor, hexact]
  by_cases h : extent * unitsPerOne < Binary64.signed s a.units
  · rw [if_pos (decide_eq_true h)]
    have hle : extent ≤ Binary64.signed s a.units / unitsPerOne :=
      (Int.le_ediv_iff_mul_le hpos).2 (Int.le_of_lt h)
    rw [Int.max_eq_right hle, Binary64.truncate]
    -- above an extent numbers are positive, so that dropping the fraction is rounding down
    cases s with
    | false => rfl
    | true =>
      have hmul := Int.mul_nonneg hextent (Int.le_of_lt hpos)
      have hsigned : Binary64.signed true a.units = -(a.units : Int) := rfl
      rw [hsigned] at h
      omega
  · rw [if_neg fun hexceeds => h (of_decide_eq_true hexceeds)]
    have hle : Binary64.signed s a.units / unitsPerOne ≤ extent :=
      Int.ediv_le_of_le_mul hpos (Int.not_lt.1 h)
    rw [Int.max_eq_left hle]

theorem foldlM_grow_eq (hpoints : ∀ p ∈ points, p.isFinite = true) {width height : Int} (hwidth : 0 ≤ width)
    (hheight : 0 ≤ height) :
    points.foldlM (fun e p => do return (← grow e.1 p.x, ← grow e.2 p.y)) (width, height) =
      (.ok ((points.map (·.x.floor)).foldl max width, (points.map (·.y.floor)).foldl max height) :
        Computed (Int × Int)) := by
  induction points generalizing width height with
  | nil => rfl
  | cons p points ih =>
    obtain ⟨hp, hrest⟩ := List.forall_mem_cons.1 hpoints
    obtain ⟨hx, hy⟩ := Bool.and_eq_true_iff.1 hp
    rw [List.foldlM_cons, grow_eq hx hwidth, grow_eq hy hheight]
    exact ih hrest (Int.le_trans hwidth (Int.le_max_left _ _)) (Int.le_trans hheight (Int.le_max_left _ _))

/-! ## The largest floor -/

/-- The largest of the minimum and some coordinates. -/
def reach (coordinates : List Int) : Int := coordinates.foldl max minimum

theorem foldl_max_le_iff (coordinates : List Int) (start bound : Int) :
    coordinates.foldl max start ≤ bound ↔ start ≤ bound ∧ ∀ c ∈ coordinates, c ≤ bound := by
  induction coordinates generalizing start with
  | nil => simp
  | cons c coordinates ih =>
    rw [List.foldl_cons, ih, List.forall_mem_cons]
    constructor
    · rintro ⟨h, hrest⟩
      exact ⟨by omega, by omega, hrest⟩
    · rintro ⟨hstart, hc, hrest⟩
      exact ⟨by omega, hrest⟩

theorem reach_le_iff {coordinates : List Int} {bound : Int} :
    reach coordinates ≤ bound ↔ minimum ≤ bound ∧ ∀ c ∈ coordinates, c ≤ bound :=
  foldl_max_le_iff coordinates minimum bound

/-- Fewer coordinates reach no farther. -/
theorem reach_mono {coordinates more : List Int} (h : ∀ c ∈ coordinates, c ∈ more) :
    reach coordinates ≤ reach more := by
  obtain ⟨hminimum, hmore⟩ := reach_le_iff.1 (Int.le_refl (reach more))
  exact reach_le_iff.2 ⟨hminimum, fun c hc => hmore c (h c hc)⟩

/-! ## The size -/

/-- The size of a canvas in closed form. -/
theorem size_eq (hpoints : ∀ p ∈ points, p.isFinite = true) :
    size points = .ok (reach (points.map (·.x.floor)) + margin, reach (points.map (·.y.floor)) + margin) := by
  have hminimum : 0 ≤ minimum := by decide
  rw [size, extent, foldlM_grow_eq hpoints hminimum hminimum]
  rfl

/-- The same points make the same canvas, in whatever order and how often they stand. -/
theorem size_congr {points' : List Point} (hpoints : ∀ p ∈ points, p.isFinite = true)
    (h : ∀ p, p ∈ points' ↔ p ∈ points) :
    ∃ dimensions, size points = .ok dimensions ∧ size points' = .ok dimensions := by
  have hreach (f : Point → Int) : reach (points'.map f) = reach (points.map f) := by
    refine Int.le_antisymm (reach_mono fun c hc => ?_) (reach_mono fun c hc => ?_)
    · obtain ⟨p, hp, rfl⟩ := List.mem_map.1 hc
      exact List.mem_map_of_mem ((h p).1 hp)
    · obtain ⟨p, hp, rfl⟩ := List.mem_map.1 hc
      exact List.mem_map_of_mem ((h p).2 hp)
  refine ⟨_, size_eq hpoints, ?_⟩
  rw [size_eq fun p hp => hpoints p ((h p).1 hp), hreach, hreach]

end Canvas
end Pinboard
