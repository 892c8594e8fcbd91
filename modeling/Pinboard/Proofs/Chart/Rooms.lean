import Pinboard.Proofs.Chart.Cells
import Pinboard.Proofs.Chart.Outcome
import Pinboard.Proofs.Numeric.Order

/-!
# The room for the text of a shape

A shape is checked before it is drawn: its corners must not be too far apart, and its outline has to be finite. The
room for its text is computed apart from the outline, and is not checked. Main statement: where the checks have passed
the room is finite all the same and its size is not negative, so that only the columns of a table, or more cells than a
ring can hold, can be at fault from there on; and no line that fails leaves a label behind (`executeAt_roomy`). There are
tables of one column with that many cells (`barredTable_overflows`).
-/

namespace Pinboard

open Work
open Binary64 (ofInt)
open Pinboard.Ring (maxCapacity)

/-! ## Sizes -/

theorem Binary64.zero_le_iff {x : Binary64} (hx : x.isFinite = true) : 0 ≤ x ↔ 0 ≤ x.exact := by
  have hplace : x.place = x.exact := by
    obtain ⟨s, a, rfl⟩ := isFinite_iff.1 hx
    rfl
  rw [le_iff_place zero_ne_nan (ne_nan_of_isFinite hx), place_zero, hplace]

/-- A finite area whose size is not negative. -/
structure Area.IsDrawable (a : Area) : Prop extends a.IsFinite where
  width_nonneg : 0 ≤ a.width
  height_nonneg : 0 ≤ a.height

theorem Area.IsFinite.isDrawable {a : Area} (h : a.IsFinite) (hwidth : 0 ≤ a.width.exact)
    (hheight : 0 ≤ a.height.exact) : a.IsDrawable where
  toIsFinite := h
  width_nonneg := (Binary64.zero_le_iff h.width).2 hwidth
  height_nonneg := (Binary64.zero_le_iff h.height).2 hheight

namespace Bounds.IsSound

variable {e : Bounds}

theorem size_nonneg (h : e.IsSound) : 0 ≤ e.area.width.exact ∧ 0 ≤ e.area.height.exact := by
  obtain ⟨-, hwidth, -⟩ := Binary64.exact_sub h.right h.left h.width
  obtain ⟨-, hheight, -⟩ := Binary64.exact_sub h.bottom h.top h.height
  have hx := h.horizontal
  have hy := h.vertical
  exact ⟨hwidth (by omega), hheight (by omega)⟩

/-- The room in a pill or a hexagon is as wide as the shape without one of its ends, which is no more than half of
it. -/
theorem inset_nonneg (h : e.IsSound) : 0 ≤ (e.area.width - min e.area.width e.area.height / 2).exact := by
  obtain ⟨hw, hh⟩ := h.size_nonneg
  obtain ⟨hmin, hexact⟩ := Binary64.exact_min (x := e.area.width) (y := e.area.height) h.width h.height
  obtain ⟨hhalf, habs, hpos, -⟩ := Binary64.exact_half hmin
  -- the room is finite by the soundness of the bounds, so its sign can be read off exact numbers
  have hdepth := hpos (by omega)
  obtain ⟨-, hroom, -⟩ := Binary64.exact_sub (x := e.area.width) h.width hhalf h.inset.2.width
  exact hroom (by omega)

theorem area_isDrawable (h : e.IsSound) : e.area.IsDrawable := h.area.isDrawable h.size_nonneg.1 h.size_nonneg.2

end Bounds.IsSound

/-! ## What is checked, and what is left -/

/-- The outline of a shape between some bounds; none where it is a rectangle. -/
def Shape.outline (bounds : Bounds) : Shape → Meaning (List Point)
  | .hex => .ok (Geometry.hexagon bounds)
  | .tiltBox skew => do
    let skew ← Meaning.number "TiltBox" "skew" skew
    return Geometry.tilted skew bounds
  | .trapBox top bottom => do
    let top ← Meaning.number "TrapBox" "top expansion" top
    let bottom ← Meaning.number "TrapBox" "bottom expansion" bottom
    return Geometry.trapezoid top bottom bounds
  | .notchBox outward side => do
    let side ← Meaning.side (Shape.notchBox outward side).kind.title side
    return Geometry.notched side outward bounds
  | _ => .ok []

/-- Between its corners a shape has bounds, and its outline is finite. -/
structure ShapeCommand.Passes (s : ShapeCommand) (pins : PinTable) (bounds : Bounds) : Prop where
  corners : Meaning.corners pins s.shape.kind.title s.first s.second = .ok bounds
  outline : ∃ points, s.shape.outline bounds = .ok points ∧ ∀ p ∈ points, p.isFinite = true

/-- The columns that a shape is given; one where it is no table. -/
def Shape.givenColumns : Shape → Meaning Nat
  | .table word => Meaning.columns "Table" word
  | _ => .ok 1

/-- The cells of a shape as they come out of the ring that they wait in. -/
def ShapeCommand.waitingCells (s : ShapeCommand) : Meaning (List String) :=
  match s.shape with
  | .table _ => tableCells s.text
  | _ => .ok [s.text]

/-- What is left to be done for a shape with a figure: its columns are counted, and its text is drawn in an area. -/
def ShapeCommand.write (s : ShapeCommand) (figure : Element) (a : Area) : Work Fragment := do
  let columns ← of s.shape.givenColumns
  if s.text.isEmpty then return [figure]
  let cells ← of s.waitingCells
  return [figure, ← textBlock a cells (tableColumns columns cells) s.shape.textClass]

/-- What can be wrong with the columns of a table: their word is no count, or the count is too large for a number. -/
inductive ShapeCommand.ColumnFault (s : ShapeCommand) : Fault → Prop
  | word {word : String} {f : Fault} (hshape : s.shape = .table word) (h : Meaning.columns "Table" word = .error f) :
    ColumnFault s f
  | size {word : String} {n : Nat} (hshape : s.shape = .table word) (h : Meaning.columns "Table" word = .ok n)
    (hlarge : (ofInt n).isFinite = false) : ColumnFault s (.breakdown (.arithmetic .integerTooLarge))

/-- A table text has as many cells as a ring has slots, or more. -/
def ShapeCommand.Overflows (s : ShapeCommand) (f : Fault) : Prop :=
  maxCapacity ≤ s.cells.length ∧ f = .breakdown (.words (.tooManyElements s.cells.length))

theorem Shape.exists_of_kind {shape : Shape} (h : shape.kind = .table) : ∃ word, shape = .table word := by
  cases shape with
  | table word => exact ⟨word, rfl⟩
  | box small => cases small <;> cases h
  | notchBox outward side => cases outward <;> cases h
  | _ => cases h

variable {b b' : Board} {s : ShapeCommand} {bounds : Bounds} {a : Area}

namespace ShapeCommand

/-- What is no table has its text in one cell of one column. -/
theorem given_of_kind (h : s.shape.kind ≠ .table) : s.shape.givenColumns = .ok 1 ∧ s.waitingCells = .ok [s.text] := by
  obtain ⟨shape, first, second, text⟩ := s
  cases shape with
  | table word => exact absurd rfl h
  | _ => exact ⟨rfl, rfl⟩

theorem write_single (h : s.shape.kind ≠ .table) (figure : Element) (a : Area) :
    s.write figure a = do return figure :: (← shapeText a s.text s.shape.textClass) := by
  obtain ⟨hcolumns, hcells⟩ := given_of_kind h
  rw [write, hcolumns, hcells, shapeText]
  change (if s.text.isEmpty then _ else _) = _
  split
  · rfl
  · rw [bind_assoc]
    rfl

section
variable {β : Type} {figure : Element} {points : List Point} {command first second : String}

theorem given_bind {α : Type} {m : Meaning α} {x : α} (h : m = .ok x) (k : α → Work β) : (of m >>= k) b = k x b := by
  rw [h]
  rfl

theorem corners_bind (h : Meaning.corners b.pins command first second = .ok bounds) (k : Bounds → Work β) :
    (do k (← of (Meaning.corners (← pins) command first second))) b = k bounds b :=
  given_bind h k

theorem rectangle_bind {radius : Option Binary64} (h : Drawing.rectangle a b.fill radius = .ok figure)
    (k : Element → Work β) : (do k (← ofComputed (Drawing.rectangle a (← get).fill radius))) b = k figure b := by
  change (ofComputed (Drawing.rectangle a b.fill radius) >>= k) b = _
  rw [h]
  rfl

theorem outline_bind (h : Drawing.polygon points b.fill = .ok figure) (hpoints : ∀ p ∈ points, p.isFinite = true)
    (k : Element → Work β) : (outline command points >>= k) b = k figure b := by
  have hfinite : points.all Point.isFinite = true := List.all_eq_true.2 hpoints
  rw [outline, if_pos hfinite]
  change (ofComputed (Drawing.polygon points b.fill) >>= k) b = _
  rw [h]
  rfl

end

/-- Where the checks have passed, a room is found for the text, and it can be drawn in. -/
theorem draw_passed (hb : b.IsFinite) (h : s.Passes b.pins bounds) :
    ∃ figure a, s.shape.Leaves bounds a ∧ a.IsDrawable ∧ s.draw b = s.write figure a b := by
  obtain ⟨hcorners, points, houtline, hpoints⟩ := h
  have hsound := (Meaning.corners_gives _ hb.pins _ _).ok hcorners
  have hinset := hsound.inset
  obtain ⟨plain, hplain⟩ := Drawing.rectangle_ok hsound.area b.fill none (by simp)
  obtain ⟨round, hround⟩ := Drawing.rectangle_ok hsound.area b.fill (some _) fun r hr => by cases hr; exact hinset.1
  obtain ⟨figure, hfigure⟩ := Drawing.polygon_ok hpoints b.fill
  have hinner := hinset.2.isDrawable hsound.inset_nonneg hsound.size_nonneg.2
  obtain ⟨shape, first, second, text⟩ := s
  cases shape with
  | box small =>
    refine ⟨plain, bounds.area, rfl, hsound.area_isDrawable, ?_⟩
    rw [write_single (by cases small <;> simp [Shape.kind])]
    cases small <;> exact (corners_bind hcorners _).trans (rectangle_bind hplain _)
  | table word =>
    refine ⟨plain, bounds.area, rfl, hsound.area_isDrawable, (corners_bind hcorners _).trans ?_⟩
    exact of_bind_congr fun columns _ => rectangle_bind hplain _
  | pill =>
    refine ⟨round, _, rfl, hinner, ?_⟩
    rw [write_single (by simp [Shape.kind])]
    exact (corners_bind hcorners _).trans (rectangle_bind hround _)
  | hex =>
    cases houtline
    refine ⟨figure, _, rfl, hinner, ?_⟩
    rw [write_single (by simp [Shape.kind])]
    exact (corners_bind hcorners _).trans (outline_bind hfigure hpoints _)
  | tiltBox word =>
    obtain ⟨skew, hskew, houtline⟩ := exists_of_except_bind_ok houtline
    cases houtline
    have hcorner := hpoints ⟨bounds.left + skew, bounds.top⟩ List.mem_cons_self
    have hroom := hsound.skewed ((Meaning.number_gives _ _ word).ok hskew) ((Point.isFinite_iff _).1 hcorner).1
    refine ⟨figure, _, ⟨skew, hskew, rfl⟩, hroom.isDrawable hsound.size_nonneg.1 hsound.size_nonneg.2, ?_⟩
    rw [write_single (by simp [Shape.kind])]
    exact (given_bind hskew _).trans ((corners_bind hcorners _).trans (outline_bind hfigure hpoints _))
  | trapBox top bottom =>
    obtain ⟨x, hx, houtline⟩ := exists_of_except_bind_ok houtline
    obtain ⟨y, hy, houtline⟩ := exists_of_except_bind_ok houtline
    cases houtline
    refine ⟨figure, bounds.area, rfl, hsound.area_isDrawable, ?_⟩
    rw [write_single (by simp [Shape.kind])]
    refine (given_bind hx _).trans ((given_bind hy _).trans ?_)
    exact (corners_bind hcorners _).trans (outline_bind hfigure hpoints _)
  | notchBox outward word =>
    obtain ⟨side, hside, houtline⟩ := exists_of_except_bind_ok houtline
    cases houtline
    refine ⟨figure, bounds.area, rfl, hsound.area_isDrawable, ?_⟩
    rw [write_single (by cases outward <;> simp [Shape.kind])]
    cases outward <;>
      exact (given_bind hside _).trans ((corners_bind hcorners _).trans (outline_bind hfigure hpoints _))

/-- Where one of the checks has not passed, the shape complains and changes nothing. -/
theorem draw_stopped (hb : b.IsFinite) (s : ShapeCommand) (h : ∀ bounds, ¬s.Passes b.pins bounds) :
    Ends s.draw b (fun _ _ => False) (Complains b) := by
  -- a shape looks up its corners, and checks its outline if it has one; nothing else can stop it
  have hrectangle {command : String} {k : Bounds → Work Fragment} (hk : ∀ bounds,
      Meaning.corners b.pins command s.first s.second = .ok bounds → s.Passes b.pins bounds) :
      Ends (do k (← of (Meaning.corners (← pins) command s.first s.second))) b (fun _ _ => False) (Complains b) :=
    .pins_bind (.given_bind (Meaning.corners_gives _ hb.pins _ _) (fun bounds hc _ => (h bounds (hk bounds hc)).elim)
      complains)
  have houtline {command : String} {points : Bounds → List Point} {k : Bounds → Element → Work Fragment}
      (hk : ∀ bounds, Meaning.corners b.pins command s.first s.second = .ok bounds →
        (∀ p ∈ points bounds, p.isFinite = true) → s.Passes b.pins bounds) :
      Ends (do
        let bounds ← of (Meaning.corners (← pins) command s.first s.second)
        k bounds (← outline command (points bounds))) b (fun _ _ => False) (Complains b) := by
    refine .pins_bind (.given_bind (Meaning.corners_gives _ hb.pins _ _) (fun bounds hc _ => ?_) complains)
    exact (outline_ends command _).bind fun figure b' hf => (h bounds (hk bounds hc hf.2)).elim
  obtain ⟨shape, first, second, text⟩ := s
  cases shape with
  | box small => cases small <;> exact hrectangle fun bounds hc => ⟨hc, [], rfl, List.forall_mem_nil _⟩
  | table _ | pill => exact hrectangle fun bounds hc => ⟨hc, [], rfl, List.forall_mem_nil _⟩
  | hex => exact houtline fun bounds hc hf => ⟨hc, _, rfl, hf⟩
  | tiltBox word =>
    refine .given_bind (Meaning.number_gives _ _ word) (fun skew hskew _ => ?_) complains
    exact houtline fun bounds hc hf => ⟨hc, _, by rw [Shape.outline, hskew]; rfl, hf⟩
  | trapBox top bottom =>
    refine .given_bind (Meaning.number_gives _ _ top) (fun x hx _ => ?_) complains
    refine .given_bind (Meaning.number_gives _ _ bottom) (fun y hy _ => ?_) complains
    exact houtline fun bounds hc hf => ⟨hc, _, by rw [Shape.outline, hx, hy]; rfl, hf⟩
  | notchBox outward word =>
    have hnotched {command : String} {side : Side} (hcommand : command = (Shape.notchBox outward word).kind.title)
        (hside : Meaning.side command word = .ok side) (bounds : Bounds) :
        (Shape.notchBox outward word).outline bounds = .ok (Geometry.notched side outward bounds) := by
      rw [Shape.outline, ← hcommand, hside]
      rfl
    cases outward <;>
      refine .given_bind (Meaning.side_gives _ word) (fun side hside _ => ?_) complains <;>
      exact houtline fun bounds hc hf => ⟨hc, _, hnotched rfl hside bounds, hf⟩

/-- What is drawn has passed the checks. -/
theorem exists_passes {fragment : Fragment} (hb : b.IsFinite) (h : s.draw b = .ok fragment b') :
    ∃ bounds, s.Passes b.pins bounds := by
  by_contra hnone
  exact (s.draw_stopped hb fun bounds hpasses => hnone ⟨bounds, hpasses⟩).ok h

/-- In a finite area only the columns of a table, or too many cells, can be at fault, and no label is left behind. -/
theorem write_ends (ha : a.IsFinite) (s : ShapeCommand) (figure : Element) :
    Ends (s.write figure a) b (fun _ b' => b.Labels b') fun f b' => (s.ColumnFault f ∨ s.Overflows f) ∧ b' = b := by
  by_cases hkind : s.shape.kind = .table
  · obtain ⟨shape, first, second, text⟩ := s
    obtain ⟨word, rfl⟩ := Shape.exists_of_kind hkind
    refine .of_bind (fun n hn => ?_) fun f hf => ⟨.inl (.word rfl hf), rfl⟩
    split
    · exact .pure (.refl b)
    -- the ring of the cells takes all of them or complains of their number
    rcases Nat.lt_or_ge (Text.cells text).length maxCapacity with hlt | hge
    · obtain ⟨hpos, hcolumns⟩ := tableColumns_spec (n := n) (Nat.le_of_lt hlt)
      refine .of_bind (fun cells hcells => ?_) fun f hf => ?_
      · obtain rfl := Except.ok.inj ((tableCells_ok hlt).symm.trans hcells)
        by_cases h : (ofInt n).isFinite = true
        · refine (textBlock_ends ha (Nat.le_of_lt hlt) hpos (hcolumns.trans h) .box _).bind fun _ _ hl => .pure hl
        · have hlarge := Bool.eq_false_iff.2 h
          refine ((textBlock_tooLarge ha (hcolumns.trans hlarge) _ .box).mono_bad ?_).bind fun _ _ hfalse => hfalse.elim
          rintro f b' ⟨rfl, rfl⟩
          exact ⟨.inl (.size rfl hn hlarge), rfl⟩
      · cases (tableCells_ok hlt).symm.trans hf
    · refine .of_bind (fun cells hcells => ?_) fun f hf => ?_
      · cases (tableCells_error hge).symm.trans hcells
      · cases (tableCells_error hge).symm.trans hf
        exact ⟨.inr ⟨hge, rfl⟩, rfl⟩
  · rw [write_single hkind]
    exact (shapeText_ends ha s.text s.shape.textClass _).bind fun _ _ hl => .pure hl

/-- A table with as many cells as a ring has slots, or more, fails on account of them if its count of columns does not
fail it first. -/
theorem write_overflows {word : String} {n : Nat} (hshape : s.shape = .table word)
    (hcolumns : Meaning.columns "Table" word = .ok n) (hcells : maxCapacity ≤ s.cells.length) (figure : Element)
    (a : Area) : s.write figure a b = .error (.breakdown (.words (.tooManyElements s.cells.length))) b := by
  obtain ⟨shape, first, second, text⟩ := s
  obtain rfl := hshape
  have htext : text.isEmpty = false := by
    rw [Bool.eq_false_iff]
    intro hempty
    obtain rfl := String.isEmpty_iff.1 hempty
    have hone : maxCapacity ≤ (Text.cells "").length := hcells
    exact absurd hone (by decide)
  refine (given_bind hcolumns _).trans ?_
  rw [htext]
  change (of (tableCells text) >>= _) b = _
  rw [tableCells_error hcells]
  rfl

end ShapeCommand

/-! ## Lines -/

/-- A line with a number comes to a shape on a board: at once, or when it has set the pins of the shape. -/
inductive Board.ComesTo (b : Board) (number : Nat) (line : String) : ShapeCommand → Board → Prop
  | own {s : ShapeCommand} (h : Command.ofLine line = .ok (.shape s)) : ComesTo b number line s (b.onLine number)
  | auto {c : AutoCommand} {s : ShapeCommand} {b₁ : Board} (h : Command.ofLine line = .ok (.auto c))
    (hpins : c.setPins (b.onLine number) = .ok () b₁) (hs : c.shape = .ok s) : ComesTo b number line s b₁

theorem Board.ComesTo.draw {number : Nat} {line : String} {b₁ : Board} (hb : b.IsFinite)
    (h : b.ComesTo number line s b₁) : b₁.IsFinite ∧ executeAt number line b = s.draw b₁ := by
  cases h with
  | own h =>
    rw [executeAt_eq, execute_of_ok h]
    exact ⟨hb.onLine number, rfl⟩
  | auto h hpins hs =>
    refine ⟨((AutoCommand.setPins_ends _).ok hpins).among.isFinite (hb.onLine number), ?_⟩
    rw [executeAt_eq, execute_of_ok h, Command.run, AutoCommand.draw, bind_of_ok hpins, hs]
    rfl

/-- No line that fails leaves a label behind. -/
theorem executeAt_labels {number : Nat} {line : String} {f : Fault} (hb : b.IsFinite)
    (h : executeAt number line b = .error f b') : b'.labels = b.labels := by
  rw [executeAt_eq] at h
  obtain ⟨pins, -, -, rfl⟩ := (execute_ends (hb.onLine number) line).error h
  exact List.append_nil _

/-- On any board of a session a shape whose checks have passed has a room for its text that is finite and whose size is
not negative; it fails from there on only on account of its columns, or of a table text with more cells than a ring can
hold. Where a check has not passed the shape complains at once. And a line that fails for whatever reason leaves no
label behind. -/
theorem executeAt_roomy (lines : List (Nat × String)) (number : Nat) (line : String) :
    (∀ s b₁, (Board.session lines).ComesTo number line s b₁ →
      (∀ bounds, s.Passes b₁.pins bounds →
        (∃ figure a, s.shape.Leaves bounds a ∧ a.IsDrawable ∧
          executeAt number line (Board.session lines) = s.write figure a b₁) ∧
        ∀ f b', executeAt number line (Board.session lines) = .error f b' → s.ColumnFault f ∨ s.Overflows f) ∧
      ((∀ bounds, ¬s.Passes b₁.pins bounds) →
        ∃ f, executeAt number line (Board.session lines) = .error f b₁ ∧ f.IsComplaint)) ∧
    ∀ f b', executeAt number line (Board.session lines) = .error f b' → b'.labels = (Board.session lines).labels := by
  have hb := Board.session_isFinite lines
  refine ⟨fun s b₁ hcomes => ?_, fun f b' h => executeAt_labels hb h⟩
  obtain ⟨hb₁, hdraw⟩ := hcomes.draw hb
  refine ⟨fun bounds hpasses => ?_, fun hstopped => ?_⟩
  · obtain ⟨figure, a, hleaves, hdrawable, hwrite⟩ := ShapeCommand.draw_passed hb₁ hpasses
    refine ⟨⟨figure, a, hleaves, hdrawable, hdraw.trans hwrite⟩, fun f b' h => ?_⟩
    rw [hdraw, hwrite] at h
    exact ((s.write_ends hdrawable.toIsFinite figure).error h).1
  · have hends := s.draw_stopped hb₁ hstopped
    rw [hdraw]
    cases h : s.draw b₁ with
    | ok fragment b' => exact (hends.ok h).elim
    | error f b' =>
      obtain ⟨hf, rfl⟩ := hends.error h
      exact ⟨f, rfl, hf⟩

/-- A table that sets its own pins and then fails. -/
def failingTable : AutoCommand := ⟨.table, "t", "0", "0", "40", "30", ["-1"], ["x"]⟩

/-- The bounds between the pins of a table when these have been set on a board. -/
def AutoCommand.tableBounds (c : AutoCommand) (b : Board) : Meaning Bounds :=
  match c.setPins b with
  | .ok _ b₁ => Meaning.corners b₁.pins "Table" (c.name ++ "_tl") (c.name ++ "_br")
  | .error f _ => .error f

/-- The text of a tilted box stands in a shifted room; and a table with a negative count of columns fails on account of
it, when its pins are set and no label is. -/
theorem executeAt_roomy_tilted_and_failing :
    (∃ figure, Area.IsDrawable ⟨13, 20, 80, 60⟩ ∧
      executeAt 3 "TiltBox 6 a b x" (Board.session [(1, "Pin a 10 80"), (2, "Pin b 90 20")]) =
        ShapeCommand.write ⟨.tiltBox "6", "a", "b", "x"⟩ figure ⟨13, 20, 80, 60⟩
          ((Board.session [(1, "Pin a 10 80"), (2, "Pin b 90 20")]).onLine 3)) ∧
      ∃ f b', executeAt 3 "AutoTable t 0 0 40 30 -1 x" Board.start = .error f b' ∧
        ShapeCommand.ColumnFault ⟨.table "-1", "t_tl", "t_br", "x"⟩ f ∧ b'.labels = [] := by
  constructor
  · obtain ⟨hroomy, -⟩ := executeAt_roomy [(1, "Pin a 10 80"), (2, "Pin b 90 20")] 3 "TiltBox 6 a b x"
    have hpasses : ShapeCommand.Passes ⟨.tiltBox "6", "a", "b", "x"⟩
        ((Board.session [(1, "Pin a 10 80"), (2, "Pin b 90 20")]).onLine 3).pins ⟨10, 20, 90, 80⟩ :=
      ⟨by decide +kernel, Geometry.tilted 6 ⟨10, 20, 90, 80⟩, by decide +kernel, by decide +kernel⟩
    have hline : Command.ofLine "TiltBox 6 a b x" = .ok (.shape ⟨.tiltBox "6", "a", "b", "x"⟩) := by decide +kernel
    obtain ⟨⟨figure, a, ⟨skew, hskew, rfl⟩, hdrawable, hwrite⟩, -⟩ := (hroomy _ _ (.own hline)).1 _ hpasses
    have hsix : Meaning.number "TiltBox" "skew" "6" = .ok 6 := by decide +kernel
    obtain rfl := Except.ok.inj (hsix.symm.trans hskew)
    have harea : ({ Bounds.area ⟨10, 20, 90, 80⟩ with left := 10 + 6 / 2 } : Area) = ⟨13, 20, 80, 60⟩ := by
      decide +kernel
    rw [harea] at hdrawable hwrite
    exact ⟨figure, hdrawable, hwrite⟩
  · obtain ⟨hroomy, hlabels⟩ := executeAt_roomy [] 3 "AutoTable t 0 0 40 30 -1 x"
    have hline : Command.ofLine "AutoTable t 0 0 40 30 -1 x" = .ok (.auto failingTable) := by decide +kernel
    have hshape : failingTable.shape = .ok ⟨.table "-1", "t_tl", "t_br", "x"⟩ := by decide +kernel
    have hbounds : failingTable.tableBounds (Board.start.onLine 3) = .ok ⟨0, 0, 40, 30⟩ := by decide +kernel
    have hcount : labelCount (executeAt 3 "AutoTable t 0 0 40 30 -1 x") Board.start = none := by decide +kernel
    cases hpins : failingTable.setPins (Board.start.onLine 3) with
    | error f b₁ => simp [AutoCommand.tableBounds, hpins] at hbounds
    | ok _ b₁ =>
      cases h : executeAt 3 "AutoTable t 0 0 40 30 -1 x" Board.start with
      | ok fragment b' => simp [labelCount, h] at hcount
      | error f b' =>
        rw [AutoCommand.tableBounds, hpins] at hbounds
        have hpasses : ShapeCommand.Passes ⟨.table "-1", "t_tl", "t_br", "x"⟩ b₁.pins ⟨0, 0, 40, 30⟩ :=
          ⟨hbounds, [], rfl, by simp⟩
        obtain ⟨-, hfault⟩ := (hroomy _ _ (.auto hline hpins hshape)).1 _ hpasses
        refine ⟨f, b', rfl, (hfault f b' h).resolve_right fun hoverflows => ?_, hlabels f b' h⟩
        exact absurd hoverflows.1 (by decide +kernel)

/-- A text of bars and nothing else, so that all of its cells are empty. -/
def barsText (bars : Nat) : String := String.ofList (List.replicate bars '|')

/-- A table of one column between two pins, with a text of bars. -/
def barredTable (bars : Nat) : String := " ".intercalate ["Table", "a", "b", "1", barsText bars]

theorem ofLine_barredTable (bars : Nat) :
    Command.ofLine (barredTable bars) = .ok (.shape ⟨.table "1", "a", "b", barsText bars⟩) := by
  have htokens : Text.tokens (barredTable bars) = ["Table", "a", "b", "1", barsText bars] := by
    refine Text.tokens_intercalate (by simp) ⟨?_, by simp⟩
    have hbars : Text.isWhole (barsText bars) = true := by
      rw [Text.isWhole, barsText, String.toList_ofList, List.all_replicate]
      split <;> rfl
    simpa using ⟨by decide, by decide, by decide, by decide, hbars⟩
  have hverb : Verb.ofKeyword? (Text.lowercase "Table") = some (.shape .table) := by decide
  have hfew : ¬maxCapacity ≤ 5 := by decide
  rw [Command.ofLine_eq, htokens]
  refine (if_neg hfew).trans ?_
  rw [Command.ofTokens, hverb]
  simp [Verb.parse, Command.ofWords, ShapeCommand.ofWords]

theorem length_cells_bars (bars : Nat) : (Text.cells (barsText bars)).length = bars + 1 := by
  rw [Text.cells, Text.parts, barsText, String.toList_ofList, List.length_map]
  induction bars with
  | zero => rfl
  | succ bars ih => simp [List.replicate_succ, Text.cutAt, ih]

/-- A table can have too many cells for the ring that they wait in: then it fails, though its checks have passed and
nothing is wrong with its columns. -/
theorem barredTable_overflows :
    let board := Board.session [(1, "Pin a 0 0"), (2, "Pin b 9 9")]
    ∃ s b₁ bounds f b', board.ComesTo 3 (barredTable (maxCapacity - 1)) s b₁ ∧ s.Passes b₁.pins bounds ∧
      executeAt 3 (barredTable (maxCapacity - 1)) board = .error f b' ∧ ¬s.ColumnFault f := by
  intro board
  -- so many bars are too many to be written out
  have hmany : maxCapacity ≤ maxCapacity - 1 + 1 := by decide
  generalize maxCapacity - 1 = bars at hmany ⊢
  let s : ShapeCommand := ⟨.table "1", "a", "b", barsText bars⟩
  have hcomes : board.ComesTo 3 (barredTable bars) s (board.onLine 3) := .own (ofLine_barredTable bars)
  have hcorners : Meaning.corners (board.onLine 3).pins "Table" "a" "b" = .ok ⟨0, 0, 9, 9⟩ := by decide +kernel
  have hpasses : s.Passes (board.onLine 3).pins ⟨0, 0, 9, 9⟩ := ⟨hcorners, [], rfl, List.forall_mem_nil _⟩
  have hcolumns : Meaning.columns "Table" "1" = .ok 1 := by decide +kernel
  have hcells : maxCapacity ≤ s.cells.length := by
    change maxCapacity ≤ (Text.cells (barsText bars)).length
    rwa [length_cells_bars]
  obtain ⟨hfinite, hdraw⟩ := hcomes.draw (Board.session_isFinite _)
  obtain ⟨figure, a, -, -, hwrite⟩ := ShapeCommand.draw_passed hfinite hpasses
  refine ⟨s, board.onLine 3, ⟨0, 0, 9, 9⟩, _, _, hcomes, hpasses,
    hdraw.trans (hwrite.trans (ShapeCommand.write_overflows rfl hcolumns hcells figure a)), fun hfault => ?_⟩
  cases hfault with
  | word hshape h =>
    cases hshape
    cases hcolumns.symm.trans h

end Pinboard
