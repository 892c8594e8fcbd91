import Pinboard.Chart.Drafting
import Pinboard.Proofs.Chart.Placing

/-!
# What drawing changes

A shape adds labels and nothing else, and a line uses up an identifier as well; either complains before it
has changed anything. The areas left for text are finite because the corners are (`Bounds.IsSound.inset`,
`Bounds.IsSound.skewed`), so that text never fails, except on a count of columns beyond the range of numbers
(`textBlock_tooLarge`).
-/

namespace Pinboard

open Work
open Binary64 (ofInt)

/-! ## The areas for text -/

theorem Bounds.IsSound.area {b : Bounds} (h : b.IsSound) : b.area.IsFinite :=
  ⟨h.left, h.top, h.width, h.height⟩

/-- The text of a pill or a hexagon begins inside the shape, and the room for it is no wider than the
shape. -/
theorem Bounds.IsSound.inset {b : Bounds} (h : b.IsSound) :
    (min b.area.width b.area.height / 2).isFinite = true ∧
      Area.IsFinite
        { b.area with
          left := b.area.left + min b.area.width b.area.height / 2 / 2
          width := b.area.width - min b.area.width b.area.height / 2 } := by
  dsimp only [Bounds.area]
  have hleft := h.left
  have hle := h.horizontal
  have hlow := Binary64.inRange_exact b.left
  have hhigh := Binary64.inRange_exact b.right
  obtain ⟨hwabs, hw0, -⟩ := Binary64.exact_sub h.right h.left h.width
  obtain ⟨-, hh0, -⟩ := Binary64.exact_sub h.bottom h.top h.height
  have hwidth := hw0 (by omega)
  have hheight := hh0 (by have := h.vertical; omega)
  have hwide := Binary64.inRange_exact (b.right - b.left)
  obtain ⟨hmin, hm⟩ := Binary64.exact_min h.width h.height
  obtain ⟨hr, hrabs, hr0, -⟩ := Binary64.exact_half hmin
  obtain ⟨hq, hqabs, hq0, -⟩ := Binary64.exact_half hr
  have hradius := hr0 (by omega)
  have hquarter := hq0 hradius
  -- the width is at most twice the distance of the edges, so a quarter of it stays between them
  refine ⟨hr, ?_, h.top, ?_, h.height⟩
  · exact Binary64.isFinite_add_of_between hleft hq hlow hhigh (by omega) (by omega)
  · exact Binary64.isFinite_sub_of_between h.width hr Binary64.inRange_zero hwide (by omega) (by omega)

/-- The text of a tilted box begins between its left edge and the skewed one. -/
theorem Bounds.IsSound.skewed {b : Bounds} (h : b.IsSound) {skew : Binary64} (hskew : skew.isFinite = true)
    (hsum : (b.left + skew).isFinite = true) : Area.IsFinite { b.area with left := b.left + skew / 2 } := by
  obtain ⟨hhalf, habs, hpos, hneg⟩ := Binary64.exact_half hskew
  have hlow := Binary64.inRange_exact b.left
  have hhigh := (Binary64.isFinite_add_iff h.left hskew).1 hsum
  refine ⟨?_, h.top, h.width, h.height⟩
  rcases Int.le_total 0 skew.exact with hs | hs
  · have := hpos hs
    exact Binary64.isFinite_add_of_between h.left hhalf hlow hhigh (by omega) (by omega)
  · have := hneg hs
    exact Binary64.isFinite_add_of_between h.left hhalf hhigh hlow (by omega) (by omega)

/-! ## Text -/

variable {b : Board} {a : Area}

/-- The room of a text in a box is finite. -/
def Label.HasRoom (l : Label) : Prop := l.kind = .box → l.width.isFinite = true ∧ l.height.isFinite = true

/-- Labels with finite room are added, and nothing else changes. -/
def Board.Labels (b b' : Board) : Prop := ∃ labels : List Label, (∀ l ∈ labels, l.HasRoom) ∧ b' = b.extend [] labels

theorem Board.Labels.refl (b : Board) : b.Labels b := ⟨[], by simp⟩

theorem Board.Labels.concat {b' : Board} (h : b.Labels b') {l : Label} (hl : l.HasRoom) :
    b.Labels { b' with labels := b'.labels ++ [l] } := by
  obtain ⟨labels, hlabels, rfl⟩ := h
  refine ⟨labels ++ [l], ?_, by simp [Board.extend]⟩
  exact List.forall_mem_append.2 ⟨hlabels, List.forall_mem_singleton.2 hl⟩

/-- A count of columns is too large for a number, and the board is as it was. -/
def TooLarge (b : Board) (f : Fault) (b' : Board) : Prop :=
  f = .breakdown (.arithmetic .integerTooLarge) ∧ b' = b

/-- There are no more rows than cells. -/
theorem rows_le (n columns : Nat) : (n + columns - 1) / columns ≤ n := by
  rcases columns with _ | c
  · simp
  rcases n with _ | n
  · exact Nat.le_of_eq (Nat.div_eq_of_lt (by omega))
  · refine Nat.div_le_of_le_mul ?_
    have hmul : (c + 1) * (n + 1) = c * n + c + n + 1 := by
      rw [Nat.add_mul, Nat.mul_add]
      omega
    omega

theorem rows_inRange {cells : List String} (hcells : cells.length ≤ Nat.pow 2 30) (columns : Nat) :
    (ofInt (max 1 ((cells.length + columns - 1) / columns) : Nat)).isFinite = true := by
  refine Binary64.ofInt_isFinite (k := 30) (Nat.max_le.2 ⟨twoPow_pos 30, ?_⟩) (by decide)
  exact Nat.le_trans (rows_le _ columns) hcells

/-- Every cell that is not blank has a label, as there are a width and a height to record. -/
theorem recordCells_ok (ha : a.IsFinite) {cells : List String} (hcells : cells.length ≤ Nat.pow 2 30)
    {columns : Nat} (hpos : 0 < columns) (hrange : (ofInt columns).isFinite = true) (textClass : TextClass)
    (bad : Fault → Board → Prop) :
    Ends (recordCells a cells columns textClass) b (fun _ b' => b.Labels b') bad := by
  obtain ⟨width, hw, hwidth⟩ := Binary64.divideBy_ok ha.width hpos hrange
  obtain ⟨height, hh, hheight⟩ := Binary64.divideBy_ok ha.height (Nat.le_max_left _ _) (rows_inRange hcells columns)
  refine Ends.bind (.each (P := fun b' => b.Labels b') (.refl b) fun cell _ b' hb' => ?_) fun _ _ h => .pure h
  split
  · rw [hw, hh]
    refine .computed_bind (fun width h => ?_) fun e he => by cases he
    cases h
    refine .computed_bind (fun height h => ?_) fun e he => by cases he
    cases h
    exact .get_bind (.change_bind (.pure ⟨rfl, hb'.concat fun _ => ⟨hwidth, hheight⟩⟩))
  · exact .pure ⟨rfl, hb'⟩

/-- With too many columns the first cell that is not blank fails, before a label is recorded. -/
theorem recordCells_tooLarge {columns : Nat} (hrange : (ofInt columns).isFinite = false) (cells : List String)
    (textClass : TextClass) :
    Ends (recordCells a cells columns textClass) b (fun _ b' => b' = b) (TooLarge b) := by
  refine Ends.bind (.each (P := fun b' => b' = b) rfl fun cell _ b' hb' => ?_) fun _ _ h => .pure h
  subst hb'
  split
  · rw [Binary64.divideBy_error hrange]
    exact .computed_bind (fun width hw => by cases hw) fun e he => by cases he; exact ⟨rfl, rfl⟩
  · exact .pure ⟨rfl, rfl⟩

theorem textBlock_ends (ha : a.IsFinite) {cells : List String} (hcells : cells.length ≤ Nat.pow 2 30)
    {columns : Nat} (hpos : 0 < columns) (hrange : (ofInt columns).isFinite = true) (textClass : TextClass)
    (bad : Fault → Board → Prop) :
    Ends (textBlock a cells columns textClass) b (fun _ b' => b.Labels b') bad := by
  refine (recordCells_ok ha hcells hpos hrange textClass bad).bind fun _ b' hb' => ?_
  obtain ⟨block, hblock⟩ := Drawing.textBlock_ok ha cells hpos hrange textClass.name
  rw [hblock]
  exact .pure hb'

theorem textBlock_tooLarge (ha : a.IsFinite) {columns : Nat} (hrange : (ofInt columns).isFinite = false)
    (cells : List String) (textClass : TextClass) :
    Ends (textBlock a cells columns textClass) b (fun _ _ => False) (TooLarge b) := by
  refine (recordCells_tooLarge hrange cells textClass).bind fun _ b' hb' => ?_
  subst hb'
  rw [Drawing.textBlock_error ha cells hrange]
  exact .throw ⟨rfl, rfl⟩

/-- Text in one cell never fails in a finite area. -/
theorem shapeText_ends (ha : a.IsFinite) (text : String) (textClass : TextClass) (bad : Fault → Board → Prop) :
    Ends (shapeText a text textClass) b (fun _ b' => b.Labels b') bad := by
  rw [shapeText]
  split
  · exact .pure (.refl b)
  · have hcells : [text].length ≤ Nat.pow 2 30 := twoPow_pos 30
    have hone := Binary64.ofInt_isFinite (n := 1) (k := 0) (Nat.le_refl 1) (by decide)
    refine (textBlock_ends ha hcells Nat.one_pos hone textClass bad).bind fun _ b' hb' => ?_
    exact .pure hb'

/-! ## Shapes -/

variable {first second : String}

theorem outline_ends (command : String) (points : List Point) :
    Ends (outline command points) b (fun _ b' => b' = b ∧ ∀ p ∈ points, p.isFinite = true) (Complains b) := by
  rw [outline]
  split
  next h =>
    have hpoints : ∀ p ∈ points, p.isFinite = true := by simpa using h
    refine .get_bind ?_
    obtain ⟨figure, hf⟩ := Drawing.polygon_ok hpoints b.fill
    rw [hf]
    exact .pure ⟨rfl, hpoints⟩
  next => exact .throw ⟨⟨_, rfl⟩, rfl⟩

theorem drawBox_ends (hb : b.IsFinite) (command : String) (textClass : TextClass) (s : ShapeCommand) :
    Ends (drawBox command textClass s) b (fun _ b' => b.Labels b') (Complains b) := by
  refine .pins_bind (.given_bind (Meaning.corners_gives command hb.pins _ _) (fun bounds _ hs => ?_) complains)
  refine .get_bind ?_
  obtain ⟨figure, hf⟩ := Drawing.rectangle_ok hs.area b.fill none (by simp)
  rw [hf]
  refine .computed_bind (fun figure _ => ?_) fun e he => by cases he
  exact (shapeText_ends hs.area s.text textClass _).bind fun _ _ hl => .pure hl

theorem drawPill_ends (hb : b.IsFinite) (s : ShapeCommand) :
    Ends (drawPill s) b (fun _ b' => b.Labels b') (Complains b) := by
  refine .pins_bind (.given_bind (Meaning.corners_gives _ hb.pins _ _) (fun bounds _ hs => ?_) complains)
  obtain ⟨hradius, hroom⟩ := hs.inset
  refine .get_bind ?_
  obtain ⟨figure, hf⟩ := Drawing.rectangle_ok hs.area b.fill (some _) fun r hr => by cases hr; exact hradius
  rw [hf]
  refine .computed_bind (fun figure _ => ?_) fun e he => by cases he
  exact (shapeText_ends hroom s.text .box _).bind fun _ _ hl => .pure hl

theorem drawHex_ends (hb : b.IsFinite) (s : ShapeCommand) :
    Ends (drawHex s) b (fun _ b' => b.Labels b') (Complains b) := by
  refine .pins_bind (.given_bind (Meaning.corners_gives _ hb.pins _ _) (fun bounds _ hs => ?_) complains)
  refine (outline_ends "Hex" _).bind fun figure b' hf => ?_
  obtain ⟨rfl, -⟩ := hf
  exact (shapeText_ends hs.inset.2 s.text .box _).bind fun _ _ hl => .pure hl

theorem drawTiltBox_ends (hb : b.IsFinite) (skew : String) (s : ShapeCommand) :
    Ends (drawTiltBox skew s) b (fun _ b' => b.Labels b') (Complains b) := by
  refine .given_bind (Meaning.number_gives _ _ skew) (fun skew _ hskew => ?_) complains
  refine .pins_bind (.given_bind (Meaning.corners_gives _ hb.pins _ _) (fun bounds _ hs => ?_) complains)
  refine (outline_ends "TiltBox" _).bind fun figure b' hf => ?_
  obtain ⟨rfl, hpoints⟩ := hf
  have hcorner := hpoints ⟨bounds.left + skew, bounds.top⟩ List.mem_cons_self
  have hroom := hs.skewed hskew ((Point.isFinite_iff _).1 hcorner).1
  exact (shapeText_ends hroom s.text .box _).bind fun _ _ hl => .pure hl

theorem drawTrapBox_ends (hb : b.IsFinite) (top bottom : String) (s : ShapeCommand) :
    Ends (drawTrapBox top bottom s) b (fun _ b' => b.Labels b') (Complains b) := by
  refine .given_bind (Meaning.number_gives _ _ top) (fun top _ _ => ?_) complains
  refine .given_bind (Meaning.number_gives _ _ bottom) (fun bottom _ _ => ?_) complains
  refine .pins_bind (.given_bind (Meaning.corners_gives _ hb.pins _ _) (fun bounds _ hs => ?_) complains)
  refine (outline_ends "TrapBox" _).bind fun figure b' hf => ?_
  obtain ⟨rfl, -⟩ := hf
  exact (shapeText_ends hs.area s.text .box _).bind fun _ _ hl => .pure hl

theorem drawNotchBox_ends (hb : b.IsFinite) (outward : Bool) (side : String) (s : ShapeCommand) :
    Ends (drawNotchBox outward side s) b (fun _ b' => b.Labels b') (Complains b) := by
  refine .given_bind (Meaning.side_gives _ side) (fun side _ _ => ?_) complains
  refine .pins_bind (.given_bind (Meaning.corners_gives _ hb.pins _ _) (fun bounds _ hs => ?_) complains)
  refine (outline_ends _ _).bind fun figure b' hf => ?_
  obtain ⟨rfl, -⟩ := hf
  exact (shapeText_ends hs.area s.text .box _).bind fun _ _ hl => .pure hl

/-! ## Lines -/

theorem orient_isFinite (flipped : Bool) {start finish : Point} (hs : start.isFinite = true)
    (hf : finish.isFinite = true) :
    (orient flipped start finish).1.isFinite = true ∧ (orient flipped start finish).2.1.isFinite = true := by
  rw [orient]
  split
  · exact ⟨hf, hs⟩
  · exact ⟨hs, hf⟩

theorem nextLineId_ends (bad : Fault → Board → Prop) :
    Ends nextLineId b
      (fun id b' => id = "curve_" ++ Nat.repr b.lineCounter ∧ b' = { b with lineCounter := b.lineCounter + 1 }) bad :=
  .get_bind (.set_bind (.pure ⟨rfl, rfl⟩))

/-- A line uses up its identifier only when both its pins are there, and then it is drawn. -/
theorem LineCommand.draw_ends (hb : b.IsFinite) (l : LineCommand) :
    Ends l.draw b (fun _ b' => { b with lineCounter := b.lineCounter + 1 : Board }.Labels b') (Complains b) := by
  refine .pins_bind (.given_bind (Meaning.pin_gives _ _ l.start) (fun start _ hstart => ?_) complains)
  refine .pins_bind (.given_bind (Meaning.pin_gives _ _ l.finish) (fun finish _ hfinish => ?_) complains)
  have horient := orient_isFinite l.kind.flipped (hb.pins.point hstart) (hb.pins.point hfinish)
  generalize orient l.kind.flipped start finish = path at horient
  obtain ⟨first, last, rightToLeft⟩ := path
  refine (nextLineId_ends _).bind fun id b' hid => ?_
  obtain ⟨-, rfl⟩ := hid
  refine .get_bind ?_
  obtain ⟨path, hp⟩ := Drawing.linePath_ok horient.1 horient.2 id ⟨l.kind.arrow, rightToLeft, l.kind.flipped⟩ b.stroke
  refine .computed_bind (fun path _ => ?_) fun e he => ?_
  · split
    · exact .pure (.refl _)
    · exact .get_bind (.change_bind (.pure (.concat (.refl _) fun hkind => by cases hkind)))
  · have h := he.symm.trans hp
    cases h

end Pinboard
