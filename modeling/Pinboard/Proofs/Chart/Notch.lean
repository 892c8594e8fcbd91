import Pinboard.Proofs.Chart.Groups
import Pinboard.Proofs.Chart.OwnCommand
import Pinboard.Proofs.Chart.Rooms
import Pinboard.Proofs.Drawing.Zeros
import Pinboard.Proofs.Numeric.Grid

/-!
# The pin on the tip of a notch

A shape with a notch that points out of one of its sides sets its own pins, and pushes the one in the middle of that
side out by the depth of the notch. The pin is computed from the area on the line, moved by the offset of the board,
and the tip of the notch from the corners, which have been rounded by then. Main statement: both are printed alike
exactly if the depth on either way leads equally far out and the middle on either way is the same in print; for numbers
that have their last binary place in common, and are not too large for it, it is so (`executeAt_notchTip`). Rounding can
part them otherwise (`executeAt_notchTip_parted`).
-/

namespace Pinboard

open Work
open Binary64 (Same HasPlaces numberText)

/-! ## Lengths and areas at an offset -/

/-- Where a part of a length ends that begins at `low`, when it is moved by an offset. -/
def Binary64.placed (low length offset part : Binary64) : Binary64 := low + length * part + offset

open Binary64 (placed)

/-- The point at some parts of the width and the height of an area, moved by an offset. -/
def Area.spot (a : Area) (offset : Point) (fx fy : Binary64) : Point :=
  ⟨placed a.left a.width offset.x fx, placed a.top a.height offset.y fy⟩

/-- The rectangle between the top left and the bottom right of an area, moved by an offset. -/
def Area.bounds (a : Area) (offset : Point) : Bounds :=
  let first := a.spot offset 0 0
  let second := a.spot offset 1 1
  ⟨min first.x second.x, min first.y second.y, max first.x second.x, max first.y second.y⟩

namespace Side

/-- The coordinate of a point that changes from inside a rectangle to outside of it on a side. -/
def across : Side → Point → Binary64
  | .left, p | .right, p => p.x
  | .top, p | .bottom, p => p.y

/-- The coordinate of a point that changes along a side. -/
def along : Side → Point → Binary64
  | .left, p | .right, p => p.y
  | .top, p | .bottom, p => p.x

/-- The edge of a rectangle on a side. -/
def edge : Side → Bounds → Binary64
  | .left, e => e.left
  | .right, e => e.right
  | .top, e => e.top
  | .bottom, e => e.bottom

/-- The middle of a rectangle along a side. -/
def middle : Side → Bounds → Binary64
  | .left, e | .right, e => (e.top + e.bottom) / 2
  | .top, e | .bottom, e => (e.left + e.right) / 2

/-- The length of an area along a side. -/
def length (side : Side) (a : Area) : Binary64 := if side.isVertical then a.height else a.width

/-- The place of the pin in the middle of a side, in parts of the width and height. -/
def parts : Side → Binary64 × Binary64
  | .left => (0, 0.5)
  | .right => (1, 0.5)
  | .top => (0.5, 0)
  | .bottom => (0.5, 1)

/-- The pin in the middle of a side, before it is pushed out. -/
def spot (side : Side) (a : Area) (offset : Point) : Point := a.spot offset side.parts.1 side.parts.2

/-- How far out a side a notch reaches that begins at the edge of a rectangle, as deep as for some length. -/
def reach (side : Side) (e : Bounds) (length : Binary64) : Binary64 :=
  side.edge e + side.across side.normal * Geometry.notchDepth length

end Side

/-- Two points have the same numerals. -/
def Point.PrintsLike (p q : Point) : Prop := numberText p.x = numberText q.x ∧ numberText p.y = numberText q.y

/-- A shape with a notch in a side, by what its words mean. -/
structure AutoCommand.Says (c : AutoCommand) (a : Area) (side : Side) : Prop where
  left : Meaning.number c.kind.autoTitle "x" c.x = .ok a.left
  top : Meaning.number c.kind.autoTitle "y" c.y = .ok a.top
  width : Meaning.number c.kind.autoTitle "width" c.width = .ok a.width
  height : Meaning.number c.kind.autoTitle "height" c.height = .ok a.height
  side : c.notchSide = .ok (some side)

/-- A vertex is the tip of the notch out of a side of a rectangle: it stands between the two ends of the notch, as far
out as the depth for the length of the side, and half-way along the side. -/
structure Side.IsTip (side : Side) (e : Bounds) (tip : Point) : Prop where
  vertex : ∃ first last, Geometry.notch side true e = [first, tip, last] ∧
    [first, tip, last] <:+: Geometry.notched side true e
  across : side.across tip = side.reach e (side.length e.area)
  along : side.along tip = side.middle e

/-- What is drawn begins with the polygon of a rectangle that has a notch out of a side, with this tip. -/
structure IsNotchTip (fragment : Fragment) (fill : Option String) (side : Side) (e : Bounds) (tip : Point) : Prop where
  figure : ∃ figure rest, fragment = figure :: rest ∧ Drawing.polygon (Geometry.notched side true e) fill = .ok figure
  tip : side.IsTip e tip

/-- The words of a shape have no second meaning. -/
theorem AutoCommand.Says.unique {c : AutoCommand} {a a' : Area} {side side' : Side} (h : c.Says a side)
    (h' : c.Says a' side') : a = a' ∧ side = side' := by
  obtain ⟨left, top, width, height⟩ := a
  obtain ⟨left', top', width', height'⟩ := a'
  cases h.left.symm.trans h'.left
  cases h.top.symm.trans h'.top
  cases h.width.symm.trans h'.width
  cases h.height.symm.trans h'.height
  cases h.side.symm.trans h'.side
  exact ⟨rfl, rfl⟩

/-! ## One axis -/

namespace Binary64

variable {x y low length offset : Binary64}

theorem same_add_zero (hx : x.isFinite = true) (s : Bool) : Same (x + zero s) x := by
  have hsum : x.exact + (zero s).exact = x.exact := by
    cases s <;> exact Int.add_zero _
  obtain ⟨hfinite, hexact⟩ := exact_add_eq hx (y := zero s) rfl (by rw [hsum]; exact representable_exact x)
  exact same_of_exact hfinite hx (hexact.trans hsum)

theorem same_min (hx : x.isFinite = true) (hy : y.isFinite = true) (h : x.exact ≤ y.exact) : Same (min x y) x := by
  obtain ⟨hfinite, hexact⟩ := exact_min hx hy
  exact same_of_exact hfinite hx (by omega)

theorem same_max (hx : x.isFinite = true) (hy : y.isFinite = true) (h : x.exact ≤ y.exact) : Same (max x y) y := by
  obtain ⟨hfinite, hexact⟩ := exact_max hx hy
  exact same_of_exact hfinite hy (by omega)

/-- Both ends of a length that is not negative keep their order when they are rounded. -/
theorem placed_le (hfirst : (placed low length offset 0).isFinite = true)
    (hlast : (placed low length offset 1).isFinite = true) (hlength : 0 ≤ length.exact) :
    (placed low length offset 0).exact ≤ (placed low length offset 1).exact := by
  obtain ⟨hbegin, hoffset⟩ := isFinite_of_add hfirst
  obtain ⟨hend, -⟩ := isFinite_of_add hlast
  obtain ⟨hlow, hnone⟩ := isFinite_of_add hbegin
  obtain ⟨-, hall⟩ := isFinite_of_add hend
  have hfinite := (isFinite_of_mul hnone).1
  obtain ⟨s, hzero⟩ := mul_zero hfinite
  have hone := mul_one hfinite
  have hexact : (length * 0).exact ≤ (length * 1).exact := by
    rw [hzero, hone]
    cases s <;> exact hlength
  have hinner := exact_add_mono hlow hnone hlow hall hbegin hend (by omega)
  exact exact_add_mono hbegin hoffset hend hoffset hfirst hlast (by omega)

/-- Numbers with some binary places in common are placed without rounding: the ends are as far apart as the length says,
and half of it ends half-way between them. -/
theorem placed_of_hasPlaces {places : Nat} (hplaces : places < unitExponent) (hlow : low.HasPlaces places)
    (hlength : length.HasPlaces places) (hoffset : offset.HasPlaces places) (hpos : 0 < length.exact) :
    max (placed low length offset 0) (placed low length offset 1) -
        min (placed low length offset 0) (placed low length offset 1) = length ∧
      Same (placed low length offset 0.5)
        ((min (placed low length offset 0) (placed low length offset 1) +
          max (placed low length offset 0) (placed low length offset 1)) / 2) := by
  obtain ⟨k, hk⟩ : ∃ k, unitExponent - places = k + 1 := ⟨unitExponent - places - 1, by omega⟩
  have hroom : 53 + (k + 1) < limitExponent := by
    have hle : unitExponent + 53 < limitExponent := by decide
    omega
  have hroom' : 53 + k < limitExponent := by omega
  obtain ⟨m, hm, hlow⟩ := hlow.isMultiple (Nat.le_of_lt hplaces)
  obtain ⟨l, hl, hlength⟩ := hlength.isMultiple (Nat.le_of_lt hplaces)
  obtain ⟨o, ho, hoffset⟩ := hoffset.isMultiple (Nat.le_of_lt hplaces)
  rw [hk] at hlow hlength hoffset
  -- all sums are at most eight times as large as their terms, and have room to be exact
  have hlarge : Nat.pow 2 53 = 8 * Nat.pow 2 50 := by decide
  obtain ⟨s, hzero⟩ := mul_zero hlength.finite
  have hnone : IsMultiple (k + 1) 0 (length * 0) := by
    rw [hzero]
    exact ⟨rfl, by cases s <;> simp [zero, exact, signed]⟩
  have hall : IsMultiple (k + 1) l (length * 1) := by rwa [mul_one hlength.finite]
  have hfirst : IsMultiple (k + 1) (m + 0 + o) (placed low length offset 0) :=
    .add hroom (.add hroom hlow hnone (by omega)) hoffset (by omega)
  have hlast : IsMultiple (k + 1) (m + l + o) (placed low length offset 1) :=
    .add hroom (.add hroom hlow hall (by omega)) hoffset (by omega)
  -- half of the length needs one more place
  have hhalf : IsMultiple k (2 * m + l + 2 * o) (placed low length offset 0.5) :=
    .add hroom' (.add hroom' hlow.double (hlength.mul_half hroom' (by omega)) (by omega)) hoffset.double (by omega)
  have hle := placed_le hfirst.finite hlast.finite (Int.le_of_lt hpos)
  have hmin := (same_min hfirst.finite hlast.finite hle).symm
  have hmax := (same_max hfirst.finite hlast.finite hle).symm
  have hleft := hfirst.of_same hmin
  have hright := hlast.of_same hmax
  constructor
  · have hdifference := hright.sub hroom hleft (by omega)
    have heq : m + l + o - (m + 0 + o) = l := by omega
    rw [heq] at hdifference
    exact (hdifference.same hlength).eq_of_ne_zero (by rw [(hdifference.same hlength).exact_eq]; omega)
  · have hsum := hleft.add hroom hright (by omega)
    have heq : m + 0 + o + (m + l + o) = 2 * m + l + 2 * o := by omega
    rw [heq] at hsum
    exact hhalf.same (hsum.half hroom' (by omega))

end Binary64

/-! ## The pin and the tip -/

variable {a : Area} {offset : Point}

theorem Side.mem_autoPins (side : Side) : (side.pinSuffix, side.parts.1, side.parts.2) ∈ autoPins := by
  cases side <;> simp [autoPins, Side.pinSuffix, Side.parts]

theorem Point.printsLike_iff (side : Side) {p q : Point} :
    p.PrintsLike q ↔ numberText (side.across p) = numberText (side.across q) ∧
      numberText (side.along p) = numberText (side.along q) := by
  cases side with
  | left | right => exact Iff.rfl
  | top | bottom => exact and_comm

/-- An area whose pins have all been set: it has a size, and they lie at finite points. -/
structure Area.IsPlaced (a : Area) (offset : Point) : Prop where
  width : 0 < a.width.exact
  height : 0 < a.height.exact
  finite : ∀ pin ∈ autoPins, (a.spot offset pin.2.1 pin.2.2).isFinite = true

namespace Area.IsPlaced

theorem first (h : a.IsPlaced offset) :
    (placed a.left a.width offset.x 0).isFinite = true ∧ (placed a.top a.height offset.y 0).isFinite = true :=
  (Point.isFinite_iff _).1 (h.finite ("_tl", 0, 0) (by simp [autoPins]))

theorem last (h : a.IsPlaced offset) :
    (placed a.left a.width offset.x 1).isFinite = true ∧ (placed a.top a.height offset.y 1).isFinite = true :=
  (Point.isFinite_iff _).1 (h.finite ("_br", 1, 1) (by simp [autoPins]))

/-- The pin in the middle of a side lies on the edge of the rectangle that is drawn. -/
theorem across_spot (h : a.IsPlaced offset) (side : Side) :
    Binary64.Same (side.across (side.spot a offset)) (side.edge (a.bounds offset)) := by
  obtain ⟨hx, hy⟩ := h.first
  obtain ⟨hx', hy'⟩ := h.last
  have hxs := Binary64.placed_le hx hx' (Int.le_of_lt h.width)
  have hys := Binary64.placed_le hy hy' (Int.le_of_lt h.height)
  cases side with
  | left => exact (Binary64.same_min hx hx' hxs).symm
  | right => exact (Binary64.same_max hx hx' hxs).symm
  | top => exact (Binary64.same_min hy hy' hys).symm
  | bottom => exact (Binary64.same_max hy hy' hys).symm

end Area.IsPlaced

/-- The way that the pin in the middle of a side is pushed. -/
def Side.push (side : Side) (depth : Binary64) : Point := ⟨side.normal.x * depth, side.normal.y * depth⟩

/-- A point that is pushed out of a side moves across the side and stays where it is along it. -/
theorem Side.pushed {side : Side} {p : Point} {depth : Binary64} (hp : (p.shifted (side.push depth)).isFinite = true) :
    side.across (p.shifted (side.push depth)) = side.across p + side.across side.normal * depth ∧
      Same (side.along (p.shifted (side.push depth))) (side.along p) := by
  obtain ⟨hx, hy⟩ := (Point.isFinite_iff _).1 hp
  have hstays {x : Binary64} (h : (x + 0 * depth).isFinite = true) : Same (x + 0 * depth) x := by
    obtain ⟨hfinite, hproduct⟩ := Binary64.isFinite_of_add h
    obtain ⟨s, hzero⟩ := Binary64.zero_mul (Binary64.isFinite_of_mul hproduct).2
    rw [hzero]
    exact Binary64.same_add_zero hfinite s
  cases side with
  | left | right => exact ⟨rfl, hstays hy⟩
  | top | bottom => exact ⟨rfl, hstays hx⟩

/-- A notch out of a side has a tip, if all vertices are finite. -/
theorem Side.exists_tip (side : Side) {e : Bounds} (hpoints : ∀ p ∈ Geometry.notched side true e, p.isFinite = true) :
    ∃ tip, side.IsTip e tip := by
  obtain ⟨first, tip, last, hnotch, hamong, hacross, halong⟩ : ∃ first tip last,
      Geometry.notch side true e = [first, tip, last] ∧ [first, tip, last] <:+: Geometry.notched side true e ∧
        side.across tip = side.edge e + side.across side.normal * (Geometry.notchDepth (side.length e.area) * 1) ∧
        side.along tip = side.middle e := by
    cases side with
    | left =>
      refine ⟨_, _, _, rfl, ⟨[⟨e.left, e.top⟩, ⟨e.right, e.top⟩, ⟨e.right, e.bottom⟩, ⟨e.left, e.bottom⟩], [], ?_⟩, ?_⟩
      · rfl
      · exact ⟨rfl, rfl⟩
    | right =>
      refine ⟨_, _, _, rfl, ⟨[⟨e.left, e.top⟩, ⟨e.right, e.top⟩], [⟨e.right, e.bottom⟩, ⟨e.left, e.bottom⟩], ?_⟩, ?_⟩
      · rfl
      · exact ⟨rfl, rfl⟩
    | top =>
      refine ⟨_, _, _, rfl, ⟨[⟨e.left, e.top⟩], [⟨e.right, e.top⟩, ⟨e.right, e.bottom⟩, ⟨e.left, e.bottom⟩], ?_⟩, ?_⟩
      · rfl
      · exact ⟨rfl, rfl⟩
    | bottom =>
      refine ⟨_, _, _, rfl, ⟨[⟨e.left, e.top⟩, ⟨e.right, e.top⟩, ⟨e.right, e.bottom⟩], [⟨e.left, e.bottom⟩], ?_⟩, ?_⟩
      · rfl
      · exact ⟨rfl, rfl⟩
  refine ⟨tip, ⟨first, last, hnotch, hamong⟩, ?_, halong⟩
  have hfinite : (side.across tip).isFinite = true := by
    obtain ⟨hx, hy⟩ := (Point.isFinite_iff tip).1 (hpoints tip (hamong.subset (by simp)))
    cases side <;> assumption
  rw [hacross] at hfinite
  obtain ⟨-, hproduct⟩ := Binary64.isFinite_of_add hfinite
  obtain ⟨-, hone⟩ := Binary64.isFinite_of_mul hproduct
  rw [hacross, Binary64.mul_one (Binary64.isFinite_of_mul hone).1, Side.reach]

/-! ## The pins that are set -/

/-- The pins around an area that is moved by an offset. -/
def Area.pins (a : Area) (name : String) (offset : Point) : List (String × Point) :=
  autoPins.map fun pin => (name ++ pin.1, a.spot offset pin.2.1 pin.2.2)

/-- The pin in the middle of a side of an area, pushed out by the depth of its notch. -/
def Side.outer (side : Side) (a : Area) (offset : Point) : Point :=
  (side.spot a offset).shifted (side.push (Geometry.notchDepth (side.length a)))

/-- Each pin around an area is found where it has been set. -/
theorem PinTable.point?_around (t : PinTable) (name : String) {suffix : String} {fx fy : Binary64}
    (hmem : (suffix, fx, fy) ∈ autoPins) :
    (t.setAll (a.pins name offset)).point? (name ++ suffix) = some (a.spot offset fx fy) := by
  have hnodup : (autoPins.map Prod.fst).Nodup := by decide
  refine point?_setAll_of_mem t (List.mem_map.2 ⟨_, List.mem_map_of_mem hmem, rfl⟩) fun e he hname => ?_
  obtain ⟨pin, hpin, rfl⟩ := List.mem_map.1 he
  have hsuffix : pin.1 = suffix := (String.append_right_inj name).1 hname
  obtain rfl := List.inj_on_of_nodup_map hnodup hpin hmem hsuffix
  rfl

variable {b b' : Board} {fragment : Fragment} {command name : String}

theorem place_ok {p : Point} (h : place command name p b = .ok () b') :
    (p.shifted b.offset).isFinite = true ∧ b' = b.extend [(name, p.shifted b.offset)] [] := by
  have hset : setFinitePin command name (p.shifted b.offset) b = .ok () b' := h
  obtain ⟨q, hq, hset⟩ := of_bind_ok hset
  obtain ⟨rfl, hfinite⟩ := (Meaning.finitePoint_gives command _).ok hq
  cases hset
  exact ⟨hfinite, by simp [Board.extend]⟩

theorem places_ok {α : Type} {name : α → String} {point : α → Point} {xs : List α}
    (h : (xs.forM fun x => place command (name x) (point x)) b = .ok () b') :
    (∀ x ∈ xs, ((point x).shifted b.offset).isFinite = true) ∧
      b' = b.extend (xs.map fun x => (name x, (point x).shifted b.offset)) [] := by
  induction xs generalizing b with
  | nil =>
    cases h
    exact ⟨List.forall_mem_nil _, (Board.extend_nil _).symm⟩
  | cons x xs ih =>
    obtain ⟨⟨⟩, b₁, hplace, hrest⟩ := exists_of_bind_ok h
    obtain ⟨hfinite, rfl⟩ := place_ok hplace
    obtain ⟨hall, rfl⟩ := ih hrest
    exact ⟨List.forall_mem_cons.2 ⟨hfinite, hall⟩, Board.extend_extend _ _ _ [] []⟩

theorem requirePositive_ok {dimension : String} {x : Binary64} (hx : x.isFinite = true)
    (h : requirePositive command dimension x b = .ok () b') : 0 < x.exact ∧ b' = b := by
  rw [requirePositive] at h
  split at h
  · obtain ⟨text, -, h⟩ := ofComputed_bind_ok h
    cases h
  · next hnot =>
    cases h
    have hzero : (0 : Binary64).isFinite = true := Binary64.isFinite_ofNat (by decide)
    have hpos : 0 < x := by
      by_contra hle
      exact hnot ((Binary64.not_lt_iff Binary64.zero_ne_nan (Binary64.ne_nan_of_isFinite hx)).1 hle)
    have hexact := (Binary64.lt_iff hzero hx).1 hpos
    rw [Binary64.zero_eq] at hexact
    exact ⟨hexact, rfl⟩

theorem pushOut_ok {side : Side} {p : Point}
    (hp : b.pins.point? (name ++ side.pinSuffix) = some p) (h : pushOut command name side a b = .ok () b') :
    (p.shifted (side.push (Geometry.notchDepth (side.length a)))).isFinite = true ∧
      b' = b.extend
        [(name ++ side.pinSuffix, p.shifted (side.push (Geometry.notchDepth (side.length a))))] [] := by
  generalize hway : side.push (Geometry.notchDepth (side.length a)) = way
  have hshift : pushOut command name side a b = shift command [(name ++ side.pinSuffix, p)] way.x way.y b := by
    have hpins : (pins : Work PinTable) b = .ok b.pins b := rfl
    rw [pushOut, bind_of_ok hpins, ← hway]
    simp only [hp]
    rfl
  rw [hshift] at h
  rcases shift_cases command [(name ++ side.pinSuffix, p)] way b with ⟨hok, hfinite⟩ | ⟨f, herror, -⟩
  · cases hok.symm.trans h
    exact ⟨hfinite _ (List.mem_singleton_self _), by simp [Board.extend]⟩
  · cases herror.symm.trans h

/-- The pins of a shape with a notch out of a side: those around its area, and the one of the side once more. -/
theorem AutoCommand.setPins_notched {c : AutoCommand} {word : String} (hkind : c.kind = .boxOut)
    (hword : c.parameters = [word]) (h : c.setPins b = .ok () b') :
    ∃ a side, c.Says a side ∧ a.IsPlaced b.offset ∧ (side.outer a b.offset).isFinite = true ∧
      b' = b.extend (a.pins c.name b.offset ++ [(c.name ++ side.pinSuffix, side.outer a b.offset)]) [] := by
  obtain ⟨x, hx, h⟩ := of_bind_ok h
  obtain ⟨y, hy, h⟩ := of_bind_ok h
  obtain ⟨width, hw, h⟩ := of_bind_ok h
  obtain ⟨height, hh, h⟩ := of_bind_ok h
  obtain ⟨⟨⟩, b₁, hpositive, h⟩ := exists_of_bind_ok h
  obtain ⟨hwidth, hsame⟩ := requirePositive_ok ((Meaning.number_gives _ _ _).ok hw) hpositive
  rw [hsame] at h
  obtain ⟨⟨⟩, b₂, hpositive, h⟩ := exists_of_bind_ok h
  obtain ⟨hheight, hsame⟩ := requirePositive_ok ((Meaning.number_gives _ _ _).ok hh) hpositive
  rw [hsame] at h
  obtain ⟨side?, hside, h⟩ := of_bind_ok h
  obtain ⟨⟨⟩, b₃, haround, hpush⟩ := exists_of_bind_ok h
  obtain ⟨hfinite, rfl⟩ := places_ok haround
  obtain ⟨side, rfl⟩ : ∃ side, side? = some side := by
    rw [notchSide, hkind, hword] at hside
    obtain ⟨side, -, hsome⟩ := exists_of_except_bind_ok hside
    cases hsome
    exact ⟨side, rfl⟩
  let a : Area := ⟨x, y, width, height⟩
  have hspot : (b.extend (a.pins c.name b.offset) []).pins.point? (c.name ++ side.pinSuffix) =
      some (side.spot a b.offset) := PinTable.point?_around _ _ side.mem_autoPins
  obtain ⟨houter, rfl⟩ := pushOut_ok hspot hpush
  exact ⟨a, side, ⟨hx, hy, hw, hh, hside⟩, ⟨hwidth, hheight, hfinite⟩, houter, Board.extend_extend _ _ _ [] []⟩

/-! ## The shape -/

/-- Where the pin in the middle of a side has been set again it is found there, and the corners where they were. -/
theorem PinTable.point?_pushed (t : PinTable) (name : String) (side : Side) (p : Point) :
    let t' := t.setAll (a.pins name offset ++ [(name ++ side.pinSuffix, p)])
    t'.point? (name ++ side.pinSuffix) = some p ∧ t'.point? (name ++ "_tl") = some (a.spot offset 0 0) ∧
      t'.point? (name ++ "_br") = some (a.spot offset 1 1) := by
  have hother {suffix : String} {fx fy : Binary64} (hmem : (suffix, fx, fy) ∈ autoPins)
      (hne : suffix ≠ side.pinSuffix) :
      (t.setAll (a.pins name offset ++ [(name ++ side.pinSuffix, p)])).point? (name ++ suffix) =
        some (a.spot offset fx fy) := by
    have hnames : name ++ suffix ≠ name ++ side.pinSuffix := fun h => hne ((String.append_right_inj name).1 h)
    rw [setAll_append, setAll_cons, setAll_nil, point?_set, if_neg hnames, point?_around _ _ hmem]
  refine ⟨?_, hother (by simp [autoPins]) ?_, hother (by simp [autoPins]) ?_⟩
  · rw [setAll_append, setAll_cons, setAll_nil, point?_set, if_pos rfl]
  · cases side <;> simp [Side.pinSuffix]
  · cases side <;> simp [Side.pinSuffix]

theorem Meaning.eq_of_corners {pins : PinTable} {first second : String} {p q : Point} {e : Bounds}
    (hp : pins.point? first = some p) (hq : pins.point? second = some q)
    (h : corners pins command first second = .ok e) : e = ⟨min p.x q.x, min p.y q.y, max p.x q.x, max p.y q.y⟩ := by
  rw [corners, pin_of_point _ _ hp, pin_of_point _ _ hq] at h
  simp only [bind, Except.bind] at h
  split at h
  · cases h
    rfl
  · cases h

theorem outline_ok {points : List Point} {figure : Element} (h : outline command points b = .ok figure b') :
    (∀ p ∈ points, p.isFinite = true) ∧ Drawing.polygon points b.fill = .ok figure := by
  have hfinite := ((outline_ends command points).ok h).2
  rw [outline, if_pos (List.all_eq_true.2 hfinite)] at h
  cases hfigure : Drawing.polygon points b.fill with
  | ok element =>
    have hdrawn : (ofComputed (.ok element) : Work Element) b = .ok figure b' := hfigure ▸ h
    cases hdrawn
    exact ⟨hfinite, rfl⟩
  | error e =>
    have hdrawn : (ofComputed (.error e) : Work Element) b = .ok figure b' := hfigure ▸ h
    cases hdrawn

/-- What a rectangle with a notch out of a side is drawn from. -/
theorem drawNotchBox_ok {s : ShapeCommand} {word : String} (h : drawNotchBox true word s b = .ok fragment b') :
    ∃ side e, Meaning.side "BoxOut" word = .ok side ∧ Meaning.corners b.pins "BoxOut" s.first s.second = .ok e ∧
      (∀ p ∈ Geometry.notched side true e, p.isFinite = true) ∧
      ∃ figure rest, fragment = figure :: rest ∧
        Drawing.polygon (Geometry.notched side true e) b.fill = .ok figure := by
  obtain ⟨side, hside, h⟩ := of_bind_ok h
  obtain ⟨table, b₁, htable, h⟩ := exists_of_bind_ok h
  cases htable
  obtain ⟨e, hcorners, h⟩ := of_bind_ok h
  obtain ⟨figure, b₂, houtline, h⟩ := exists_of_bind_ok h
  obtain ⟨texts, b₃, -, h⟩ := exists_of_bind_ok h
  cases h
  obtain ⟨hfinite, hfigure⟩ := outline_ok houtline
  exact ⟨side, e, hside, hcorners, hfinite, figure, texts, rfl, hfigure⟩

/-- A word means the same side to every command. -/
theorem Meaning.side_unique {word command' : String} {side side' : Side} (h : Meaning.side command word = .ok side)
    (h' : Meaning.side command' word = .ok side') : side = side' := by
  rw [Meaning.side] at h h'
  cases hword : sideOfWord? (Text.lowercase word) with
  | none =>
    rw [hword] at h
    cases h
  | some found =>
    rw [hword] at h h'
    cases h
    cases h'
    rfl

/-- A shape with a notch out of a side finds the corners that it has set, and draws the rectangle between them. -/
theorem AutoCommand.draw_notched {c : AutoCommand} (hkind : c.kind = .boxOut) (hc : c.IsSound)
    (h : c.draw b = .ok fragment b') :
    ∃ a side tip, c.Says a side ∧ a.IsPlaced b.offset ∧ (side.outer a b.offset).isFinite = true ∧
      b'.pins.point? (c.name ++ side.pinSuffix) = some (side.outer a b.offset) ∧
      Meaning.corners b'.pins "BoxOut" (c.name ++ "_tl") (c.name ++ "_br") = .ok (a.bounds b.offset) ∧
      IsNotchTip fragment b'.fill side (a.bounds b.offset) tip := by
  obtain ⟨s, hs, -, -⟩ := ofWords_shapeWords hc
  obtain ⟨b₁, hpins, hdraw⟩ := exists_draw hc hs h
  obtain ⟨kind, name, x, y, width, height, parameters, rest⟩ := c
  obtain rfl : kind = .boxOut := hkind
  obtain ⟨word, rfl⟩ := List.length_eq_one_iff.1 hc.parameters
  cases hs
  -- drawing adds labels only, so the pins are those that have been set before
  obtain ⟨labels, rfl, -⟩ := ShapeCommand.draw_again hdraw
  obtain ⟨a, side, hsays, hplaced, houter, rfl⟩ := setPins_notched rfl rfl hpins
  obtain ⟨side', e, hside, hcorners, hpoints, hfigure⟩ := drawNotchBox_ok hdraw
  obtain ⟨hpin, hfirst, hsecond⟩ := PinTable.point?_pushed b.pins name side (side.outer a b.offset)
  obtain rfl := Meaning.eq_of_corners hfirst hsecond hcorners
  obtain rfl : side' = side := by
    obtain ⟨found, hfound, hsome⟩ := exists_of_except_bind_ok hsays.side
    cases hsome
    exact Meaning.side_unique hside hfound
  obtain ⟨tip, htip⟩ := side'.exists_tip hpoints
  exact ⟨a, side', tip, hsays, hplaced, houter, hpin, hcorners, hfigure, htip⟩

/-! ## In print -/

/-- The pin that is pushed out of a side lies as far out as a notch reaches that is as deep as for the length of the
area, and half-way along the area; the tip of the notch as far out as for the length between the corners, and half-way
between them. -/
theorem Area.IsPlaced.printsLike_iff (h : a.IsPlaced offset) {side : Side} {tip : Point}
    (houter : (side.outer a offset).isFinite = true) (htip : side.IsTip (a.bounds offset) tip) :
    (side.outer a offset).PrintsLike tip ↔
      numberText (side.reach (a.bounds offset) (side.length a)) =
          numberText (side.reach (a.bounds offset) (side.length (a.bounds offset).area)) ∧
        numberText (side.along (side.spot a offset)) = numberText (side.middle (a.bounds offset)) := by
  obtain ⟨hpushed, hstays⟩ := Side.pushed houter
  have hreach : Binary64.Same (side.across (side.outer a offset)) (side.reach (a.bounds offset) (side.length a)) := by
    rw [Side.outer, hpushed]
    exact (h.across_spot side).add (.refl _)
  rw [Point.printsLike_iff side, htip.across, htip.along, hreach.numberText_eq, Side.outer, hstays.numberText_eq]

/-- Without rounding the rectangle that is drawn is as long as the area, and has its middle at the same place. -/
theorem Area.bounds_of_hasPlaces {places : Nat} (hplaces : places < unitExponent) (hwidth : 0 < a.width.exact)
    (hheight : 0 < a.height.exact)
    (h : ∀ x ∈ [a.left, a.top, a.width, a.height, offset.x, offset.y], x.HasPlaces places) (side : Side) :
    side.length (a.bounds offset).area = side.length a ∧
      Binary64.Same (side.along (side.spot a offset)) (side.middle (a.bounds offset)) := by
  simp only [List.forall_mem_cons] at h
  obtain ⟨hleft, htop, hw, hh, hoffset, hoffset', -⟩ := h
  have hx := Binary64.placed_of_hasPlaces hplaces hleft hw hoffset hwidth
  have hy := Binary64.placed_of_hasPlaces hplaces htop hh hoffset' hheight
  cases side with
  | left | right => exact hy
  | top | bottom => exact hx

theorem Area.IsPlaced.printsLike (h : a.IsPlaced offset) {side : Side} {tip : Point}
    (houter : (side.outer a offset).isFinite = true) (htip : side.IsTip (a.bounds offset) tip) {places : Nat}
    (hplaces : places < unitExponent)
    (hgrid : ∀ x ∈ [a.left, a.top, a.width, a.height, offset.x, offset.y], x.HasPlaces places) :
    (side.outer a offset).PrintsLike tip := by
  obtain ⟨hlength, hmiddle⟩ := Area.bounds_of_hasPlaces hplaces h.width h.height hgrid side
  exact (h.printsLike_iff houter htip).2 ⟨by rw [hlength], hmiddle.numberText_eq⟩

/-! ## Lines -/

theorem executeAt_notched {number : Nat} {line : String} (hverb : verbOf line = some (.auto .boxOut))
    (h : executeAt number line b = .ok fragment b') :
    ∃ c a side tip, Command.ofLine line = .ok (.auto c) ∧ c.Says a side ∧ a.IsPlaced b.offset ∧
      (side.outer a b.offset).isFinite = true ∧
      b'.pins.point? (c.name ++ side.pinSuffix) = some (side.outer a b.offset) ∧
      Meaning.corners b'.pins "BoxOut" (c.name ++ "_tl") (c.name ++ "_br") = .ok (a.bounds b.offset) ∧
      IsNotchTip fragment b'.fill side (a.bounds b.offset) tip := by
  rw [executeAt_eq] at h
  obtain ⟨c, hc, hrun⟩ := of_bind_ok h
  obtain ⟨c, words, rfl, hkind, hline⟩ := Command.ofLine_auto hverb hc
  obtain ⟨a, side, tip, hdrawn⟩ := AutoCommand.draw_notched hkind hline.sound hrun
  exact ⟨c, a, side, tip, hc, hdrawn⟩

/-- On any board of a session, a line that sets the pins of a shape with a notch out of a side and draws it leaves the
pin of that side and the tip of the notch alike in print exactly if a notch reaches equally far in print with the depth
for the length on the line and with the depth for the length between the corners, and half-way along the side is the
same in print by the line and by the corners. For numbers with some binary places in common it is so. -/
theorem executeAt_notchTip (lines : List (Nat × String)) (number : Nat) {line : String}
    (hverb : verbOf line = some (.auto .boxOut))
    (h : executeAt number line (Board.session lines) = .ok fragment b') :
    ∃ c a side pin tip e, Command.ofLine line = .ok (.auto c) ∧ c.Says a side ∧
      e = a.bounds (Board.session lines).offset ∧
      b'.pins.point? (c.name ++ side.pinSuffix) = some pin ∧
      Meaning.corners b'.pins "BoxOut" (c.name ++ "_tl") (c.name ++ "_br") = .ok e ∧
      IsNotchTip fragment b'.fill side e tip ∧
      (pin.PrintsLike tip ↔
        numberText (side.reach e (side.length a)) = numberText (side.reach e (side.length e.area)) ∧
          numberText (side.along (side.spot a (Board.session lines).offset)) = numberText (side.middle e)) ∧
      ∀ places < unitExponent,
        (∀ x ∈ [a.left, a.top, a.width, a.height, (Board.session lines).offset.x, (Board.session lines).offset.y],
          x.HasPlaces places) → pin.PrintsLike tip := by
  obtain ⟨c, a, side, tip, hc, hsays, hplaced, houter, hpin, hcorners, htip⟩ := executeAt_notched hverb h
  refine ⟨c, a, side, _, tip, _, hc, hsays, rfl, hpin, hcorners, htip, ?_, fun places hplaces hgrid => ?_⟩
  · exact hplaced.printsLike_iff houter htip.tip
  · exact hplaced.printsLike houter htip.tip hplaces hgrid

/-- A shape with a notch out of its right side. -/
def rightNotch : AutoCommand := ⟨.boxOut, "n", "10", "20", "100", "40", ["right"], []⟩

/-- The pin and the tip of a notch out of the right side agree at an offset with halves. -/
theorem executeAt_notchTip_halves :
    ∃ fragment b' pin tip,
      executeAt 2 "AutoBoxOut n 10 20 100 40 right" (Board.session [(1, "Translate 5 0.5")]) = .ok fragment b' ∧
      b'.pins.point? "n_r" = some pin ∧ IsNotchTip fragment b'.fill .right ⟨15, 20.5, 115, 60.5⟩ tip ∧
      pin.PrintsLike tip := by
  have hverb : verbOf "AutoBoxOut n 10 20 100 40 right" = some (.auto .boxOut) := by decide +kernel
  have hsucceeds : succeeds (executeAt 2 "AutoBoxOut n 10 20 100 40 right")
      (Board.session [(1, "Translate 5 0.5")]) = true := by decide +kernel
  obtain ⟨fragment, b', h⟩ := succeeds_iff.1 hsucceeds
  obtain ⟨c, a, side, pin, tip, e, hc, hsays, rfl, hpin, -, htip, -, hgrid⟩ :=
    executeAt_notchTip [(1, "Translate 5 0.5")] 2 hverb h
  have hline : Command.ofLine "AutoBoxOut n 10 20 100 40 right" = .ok (.auto rightNotch) := by decide +kernel
  cases hline.symm.trans hc
  have hmeans : rightNotch.Says ⟨10, 20, 100, 40⟩ .right :=
    ⟨by decide +kernel, by decide +kernel, by decide +kernel, by decide +kernel, by decide +kernel⟩
  obtain ⟨rfl, rfl⟩ := hsays.unique hmeans
  have hoffset : (Board.session [(1, "Translate 5 0.5")]).offset = ⟨5, 0.5⟩ := by decide +kernel
  have hbounds : Area.bounds ⟨10, 20, 100, 40⟩ ⟨5, 0.5⟩ = ⟨15, 20.5, 115, 60.5⟩ := by decide +kernel
  rw [hoffset] at htip hgrid
  rw [hbounds] at htip
  refine ⟨fragment, b', pin, tip, h, hpin, htip, hgrid 1 (by decide) ?_⟩
  have hplaces {x : Binary64} (n : Int) (hx : x.isFinite = true ∧ n.natAbs ≤ Nat.pow 2 50 ∧
      x.exact * (Nat.pow 2 1 : Nat) = n * (unitsPerOne : Nat)) : x.HasPlaces 1 := ⟨hx.1, n, hx.2⟩
  simp only [List.forall_mem_cons]
  exact ⟨hplaces 20 (by decide +kernel), hplaces 40 (by decide +kernel), hplaces 200 (by decide +kernel),
    hplaces 80 (by decide +kernel), hplaces 10 (by decide +kernel), hplaces 1 (by decide +kernel),
    List.forall_mem_nil _⟩

/-- A shape with a notch out of its left side, whose bottom is rounded up to `16.35` so that it becomes higher. -/
def leftNotch : AutoCommand := ⟨.boxOut, "n", "10", "1", "100", "15.35", ["left"], []⟩

/-- The notch is deeper by the corners than by the height on the line: the pin and the tip lie on either side of the
middle between two thousandths, and are not alike in print. -/
theorem executeAt_notchTip_parted :
    ∃ fragment b' pin tip e, executeAt 1 "AutoBoxOut n 10 1 100 15.35 left" Board.start = .ok fragment b' ∧
      b'.pins.point? "n_l" = some pin ∧ IsNotchTip fragment b'.fill .left e tip ∧
      numberText pin.x = .ok "6.163" ∧ numberText tip.x = .ok "6.162" ∧ ¬pin.PrintsLike tip := by
  have hverb : verbOf "AutoBoxOut n 10 1 100 15.35 left" = some (.auto .boxOut) := by decide +kernel
  have hsucceeds : succeeds (executeAt 1 "AutoBoxOut n 10 1 100 15.35 left") Board.start = true := by decide +kernel
  obtain ⟨fragment, b', h⟩ := succeeds_iff.1 hsucceeds
  obtain ⟨c, a, side, tip, hc, hsays, -, -, hpin, -, htip⟩ := executeAt_notched hverb h
  have hline : Command.ofLine "AutoBoxOut n 10 1 100 15.35 left" = .ok (.auto leftNotch) := by decide +kernel
  cases hline.symm.trans hc
  have hmeans : leftNotch.Says ⟨10, 1, 100, 15.35⟩ .left :=
    ⟨by decide +kernel, by decide +kernel, by decide +kernel, by decide +kernel, by decide +kernel⟩
  obtain ⟨rfl, rfl⟩ := hsays.unique hmeans
  have hpinText : numberText (Side.left.outer ⟨10, 1, 100, 15.35⟩ Board.start.offset).x = .ok "6.163" := by
    decide +kernel
  have htipText : numberText tip.x = .ok "6.162" := by
    have hx : tip.x = _ := htip.tip.across
    rw [hx]
    decide +kernel
  refine ⟨fragment, b', _, tip, _, h, hpin, htip, hpinText, htipText, fun hprints => ?_⟩
  have hsame := hpinText.symm.trans (hprints.1.trans htipText)
  exact absurd hsame (by decide +kernel)

end Pinboard
