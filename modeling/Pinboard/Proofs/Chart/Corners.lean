import Pinboard.Proofs.Chart.Groups
import Pinboard.Proofs.Chart.OwnCommand
import Pinboard.Proofs.Chart.Rooms
import Pinboard.Proofs.Drawing.Zeros

/-!
# The corners of a shape

A shape is drawn between the smallest and the largest coordinates of its two pins. So it depends on the rectangle around
them, and neither on their order nor on which two opposite corners they are. The order can make a difference to the
signs of zeros among the edges; the width and the height are equal nonetheless (`Binary64.SamePair.spread_eq`), and what
is drawn has no such signs. Main statement: `executeAt_sameRectangle`, on any board of a session.
-/

namespace Pinboard

open Work
open Binary64 (Same)
open Pinboard.Ring (maxCapacity)

/-! ## Edges -/

namespace Binary64

variable {x y x' y' : Binary64}

/-- Two numbers are the same as two others, in one or the other order. -/
def SamePair (x y x' y' : Binary64) : Prop := Same x x' ∧ Same y y' ∨ Same x y' ∧ Same y x'

theorem sub_self (hx : x.isFinite = true) : x - x = rounded false 0 1 := by
  obtain ⟨s, a, rfl⟩ := isFinite_iff.1 hx
  show Binary64.add (.finite s a) (.finite (!s) a) = _
  rw [Binary64.add]
  cases s <;> simp

/-- A difference that is not zero has no sign of a zero. -/
theorem Same.sub_eq (h : Same x x') (h' : Same y y') (hx : x.isFinite = true) (hy : y.isFinite = true)
    (hne : x.exact ≠ y.exact) : x - y = x' - y' := by
  have hx' := h.isFinite_eq ▸ hx
  have hy' := h'.isFinite_eq ▸ hy
  obtain ⟨s, hs, hsign⟩ := add_eq_rounded hx ((isFinite_neg y).trans hy)
  obtain ⟨s', hs', hsign'⟩ := add_eq_rounded hx' ((isFinite_neg y').trans hy')
  rw [exact_neg] at hs hsign hs' hsign'
  rw [← h.exact_eq, ← h'.exact_eq] at hs' hsign'
  show x + -y = x' + -y'
  rw [hs, hs', hsign (by omega), hsign' (by omega)]

namespace SamePair

variable (h : SamePair x y x' y') (hx : x.isFinite = true) (hy : y.isFinite = true)
include h hx hy

theorem isFinite : x'.isFinite = true ∧ y'.isFinite = true := by
  rcases h with ⟨h, h'⟩ | ⟨h, h'⟩
  · exact ⟨h.isFinite_eq ▸ hx, h'.isFinite_eq ▸ hy⟩
  · exact ⟨h'.isFinite_eq ▸ hy, h.isFinite_eq ▸ hx⟩

/-- What depends on the worth of two numbers, and not on their order. -/
theorem congr {op : Binary64 → Binary64 → Binary64} {opExact : Int → Int → Int}
    (hop : ∀ {x y : Binary64}, x.isFinite = true → y.isFinite = true →
      (op x y).isFinite = true ∧ (op x y).exact = opExact x.exact y.exact)
    (hcomm : ∀ m n, opExact m n = opExact n m) : Same (op x y) (op x' y') := by
  obtain ⟨hx', hy'⟩ := h.isFinite hx hy
  obtain ⟨hfinite, hexact⟩ := hop hx hy
  obtain ⟨hfinite', hexact'⟩ := hop hx' hy'
  refine same_of_exact hfinite hfinite' ?_
  rw [hexact, hexact']
  rcases h with ⟨h, h'⟩ | ⟨h, h'⟩
  · rw [h.exact_eq, h'.exact_eq]
  · rw [h.exact_eq, h'.exact_eq, hcomm]

theorem min : Same (min x y) (min x' y') := h.congr hx hy exact_min Int.min_comm

theorem max : Same (max x y) (max x' y') := h.congr hx hy exact_max Int.max_comm

omit h in
/-- Of two zeros the first is found to be the smallest and the largest. -/
theorem spread_of_eq (heq : x.exact = y.exact) : Max.max x y - Min.min x y = rounded false 0 1 := by
  have hmax : Max.max x y = x := if_neg (by rw [lt_iff hx hy]; omega)
  have hmin : Min.min x y = x := if_neg (by rw [lt_iff hy hx]; omega)
  rw [hmax, hmin, sub_self hx]

/-- From the smaller to the larger of two numbers it is equally far in the other order. -/
theorem spread_eq : Max.max x y - Min.min x y = Max.max x' y' - Min.min x' y' := by
  obtain ⟨hx', hy'⟩ := h.isFinite hx hy
  have heq : x.exact = y.exact ↔ x'.exact = y'.exact := by
    rcases h with ⟨h, h'⟩ | ⟨h, h'⟩
    · rw [h.exact_eq, h'.exact_eq]
    · rw [h.exact_eq, h'.exact_eq, eq_comm]
  -- a number minus itself is a zero without a sign, and any other difference has no sign of a zero to depend on
  by_cases hsame : x.exact = y.exact
  · rw [spread_of_eq hx hy hsame, spread_of_eq hx' hy' (heq.1 hsame)]
  · obtain ⟨hfinite, hexact⟩ := exact_min hx hy
    obtain ⟨hfinite', hexact'⟩ := exact_max hx hy
    exact (h.max hx hy).sub_eq (h.min hx hy) hfinite' hfinite (by omega)

end SamePair
end Binary64

/-- Two rectangles with the same edges and of one size. -/
structure Bounds.Same (e e' : Bounds) : Prop where
  left : Binary64.Same e.left e'.left
  top : Binary64.Same e.top e'.top
  right : Binary64.Same e.right e'.right
  bottom : Binary64.Same e.bottom e'.bottom
  width : e.right - e.left = e'.right - e'.left
  height : e.bottom - e.top = e'.bottom - e'.top

theorem Bounds.Same.area {e e' : Bounds} (h : e.Same e') : e.area.Same e'.area := ⟨h.left, h.top, h.width, h.height⟩

/-- Two rectangles are looked up with the same edges, or with the same fault. -/
inductive Meaning.SameBounds : Meaning Bounds → Meaning Bounds → Prop
  | ok {e e' : Bounds} (h : e.Same e') : SameBounds (.ok e) (.ok e')
  | error (f : Fault) : SameBounds (.error f) (.error f)

/-- Around two pins there is the same rectangle as around two others. -/
def PinTable.SameRectangle (t : PinTable) (p q p' q' : String) : Prop :=
  ∃ a b a' b', t.point? p = some a ∧ t.point? q = some b ∧ t.point? p' = some a' ∧ t.point? q' = some b' ∧
    Binary64.SamePair a.x b.x a'.x b'.x ∧ Binary64.SamePair a.y b.y a'.y b'.y

theorem Meaning.corners_same {t : PinTable} (ht : t.IsFinite) {p q p' q' : String} (h : t.SameRectangle p q p' q')
    (command : String) : SameBounds (corners t command p q) (corners t command p' q') := by
  obtain ⟨a, b, a', b', hp, hq, hp', hq', hx, hy⟩ := h
  obtain ⟨hax, hay⟩ := (Point.isFinite_iff a).1 (ht.point hp)
  obtain ⟨hbx, hby⟩ := (Point.isFinite_iff b).1 (ht.point hq)
  have hwidth := hx.spread_eq hax hbx
  have hheight := hy.spread_eq hay hby
  rw [corners, corners, pin_of_point _ _ hp, pin_of_point _ _ hq, pin_of_point _ _ hp', pin_of_point _ _ hq']
  simp only [bind, Except.bind, hwidth, hheight]
  split
  · exact .ok ⟨hx.min hax hbx, hy.min hay hby, hx.max hax hbx, hy.max hay hby, hwidth, hheight⟩
  · exact .error _

/-! ## Outlines -/

namespace Geometry

variable {e e' : Bounds}

theorem hexagon_same (h : e.Same e') : List.Forall₂ Point.Same (hexagon e) (hexagon e') := by
  have hmiddle := (h.top.add h.bottom).half
  unfold hexagon
  rw [h.width, h.height]
  exact .cons ⟨h.left.add (.refl _), h.top⟩ <| .cons ⟨h.right.sub (.refl _), h.top⟩ <| .cons ⟨h.right, hmiddle⟩ <|
    .cons ⟨h.right.sub (.refl _), h.bottom⟩ <| .cons ⟨h.left.add (.refl _), h.bottom⟩ <|
      .cons ⟨h.left, hmiddle⟩ .nil

theorem tilted_same (h : e.Same e') (skew : Binary64) : List.Forall₂ Point.Same (tilted skew e) (tilted skew e') :=
  .cons ⟨h.left.add (.refl _), h.top⟩ <| .cons ⟨h.right.add (.refl _), h.top⟩ <| .cons ⟨h.right, h.bottom⟩ <|
    .cons ⟨h.left, h.bottom⟩ .nil

theorem trapezoid_same (h : e.Same e') (top bottom : Binary64) :
    List.Forall₂ Point.Same (trapezoid top bottom e) (trapezoid top bottom e') :=
  .cons ⟨h.left.sub (.refl _), h.top⟩ <| .cons ⟨h.right.add (.refl _), h.top⟩ <|
    .cons ⟨h.right.add (.refl _), h.bottom⟩ <| .cons ⟨h.left.sub (.refl _), h.bottom⟩ .nil

theorem notch_same (h : e.Same e') (side : Side) (outward : Bool) :
    List.Forall₂ Point.Same (notch side outward e) (notch side outward e') := by
  have hcx := (h.left.add h.right).half
  have hcy := (h.top.add h.bottom).half
  unfold notch
  rw [h.width, h.height]
  cases side with
  | top =>
    exact .cons ⟨hcx.sub (.refl _), h.top⟩ <| .cons ⟨hcx, h.top.add (.refl _)⟩ <|
      .cons ⟨hcx.add (.refl _), h.top⟩ .nil
  | right =>
    exact .cons ⟨h.right, hcy.sub (.refl _)⟩ <| .cons ⟨h.right.add (.refl _), hcy⟩ <|
      .cons ⟨h.right, hcy.add (.refl _)⟩ .nil
  | bottom =>
    exact .cons ⟨hcx.add (.refl _), h.bottom⟩ <| .cons ⟨hcx, h.bottom.add (.refl _)⟩ <|
      .cons ⟨hcx.sub (.refl _), h.bottom⟩ .nil
  | left =>
    exact .cons ⟨h.left, hcy.add (.refl _)⟩ <| .cons ⟨h.left.add (.refl _), hcy⟩ <|
      .cons ⟨h.left, hcy.sub (.refl _)⟩ .nil

theorem notched_same (h : e.Same e') (side : Side) (outward : Bool) :
    List.Forall₂ Point.Same (notched side outward e) (notched side outward e') := by
  have hnotch (s : Side) : List.Forall₂ Point.Same (if s = side then notch side outward e else [])
      (if s = side then notch side outward e' else []) := by
    split
    · exact notch_same h side outward
    · exact .nil
  have hcorner {x x' y y' : Binary64} (hx : Same x x') (hy : Same y y') :
      List.Forall₂ Point.Same [⟨x, y⟩] [⟨x', y'⟩] := .cons ⟨hx, hy⟩ .nil
  -- each corner is followed by the notch in the side that begins there, if it is in that one
  have htop := List.rel_append (hcorner h.left h.top) (hnotch .top)
  have hright := List.rel_append (List.rel_append htop (hcorner h.right h.top)) (hnotch .right)
  have hbottom := List.rel_append (List.rel_append hright (hcorner h.right h.bottom)) (hnotch .bottom)
  exact List.rel_append (List.rel_append hbottom (hcorner h.left h.bottom)) (hnotch .left)

end Geometry

theorem outline_congr {points points' : List Point} (h : List.Forall₂ Point.Same points points') (command : String) :
    outline command points = outline command points' := by
  have hfinite : points.all Point.isFinite = points'.all Point.isFinite := by
    induction h with
    | nil => rfl
    | cons hp _ ih => rw [List.all_cons, List.all_cons, hp.isFinite_eq, ih]
  have htexts := h.imp fun _ _ hp => Drawing.pointText_congr hp.x hp.y
  simp only [outline, hfinite, Drawing.polygon_congr htexts]

/-! ## Texts -/

section
variable {a a' : Area}

theorem recordCells_congr (h : a.Same a') (cells : List String) (columns : Nat) (textClass : TextClass) :
    recordCells a cells columns textClass = recordCells a' cells columns textClass := by
  simp only [recordCells, h.width, h.height]

theorem textBlock_congr (h : a.Same a') (cells : List String) (columns : Nat) (textClass : TextClass) :
    textBlock a cells columns textClass = textBlock a' cells columns textClass := by
  simp only [textBlock, recordCells_congr h, Drawing.textBlock_congr h]

theorem shapeText_congr (h : a.Same a') (text : String) (textClass : TextClass) :
    shapeText a text textClass = shapeText a' text textClass := by
  simp only [shapeText, textBlock_congr h]

/-- An area that is moved to the right and has another width. -/
theorem Area.Same.moved (h : a.Same a') (way width : Binary64) :
    Area.Same { a with left := a.left + way, width := width } { a' with left := a'.left + way, width := width } :=
  ⟨h.left.add (.refl _), h.top, rfl, h.height⟩

end

/-! ## Shapes -/

namespace ShapeCommand

variable {b : Board} {p q p' q' : String}

theorem bounds_bind_congr {m m' : Meaning Bounds} {k : Bounds → Work Fragment} (h : Meaning.SameBounds m m')
    (hk : ∀ e e', e.Same e' → k e = k e') : of m >>= k = of m' >>= k := by
  cases h with
  | ok h => exact hk _ _ h
  | error f => rfl

/-- What is done with a rectangle that is looked up is the same for one with the same edges. -/
theorem corners_bind_congr {command : String} {k : Bounds → Work Fragment}
    (h : Meaning.SameBounds (Meaning.corners b.pins command p q) (Meaning.corners b.pins command p' q'))
    (hk : ∀ e e', e.Same e' → k e = k e') :
    (do k (← of (Meaning.corners (← pins) command p q))) b =
      (do k (← of (Meaning.corners (← pins) command p' q'))) b := by
  show (of (Meaning.corners b.pins command p q) >>= k) b = (of (Meaning.corners b.pins command p' q') >>= k) b
  rw [bounds_bind_congr h hk]

/-- A shape between some pins is drawn as it is between other ones with the same rectangle around them. -/
theorem draw_congr (h : ∀ command, Meaning.SameBounds (Meaning.corners b.pins command p q)
    (Meaning.corners b.pins command p' q')) (shape : Shape) (text : String) :
    (ShapeCommand.mk shape p q text).draw b = (ShapeCommand.mk shape p' q' text).draw b := by
  cases shape with
  | box small =>
    cases small <;>
      refine corners_bind_congr (h _) fun e e' he => ?_ <;>
      simp only [Drawing.rectangle_congr he.area, shapeText_congr he.area]
  | table columns =>
    refine corners_bind_congr (h _) fun e e' he => ?_
    simp only [Drawing.rectangle_congr he.area, textBlock_congr he.area]
  | pill =>
    refine corners_bind_congr (h _) fun e e' he => ?_
    simp only [Drawing.rectangle_congr he.area, shapeText_congr (he.area.moved _ _)]
    simp only [he.area.width, he.area.height]
  | hex =>
    refine corners_bind_congr (h _) fun e e' he => ?_
    simp only [outline_congr (Geometry.hexagon_same he), shapeText_congr (he.area.moved _ _)]
    simp only [he.area.width, he.area.height]
  | tiltBox skew =>
    refine of_bind_congr fun skew _ => corners_bind_congr (h _) fun e e' he => ?_
    have hroom : Area.Same { e.area with left := e.left + skew / 2 } { e'.area with left := e'.left + skew / 2 } :=
      ⟨he.left.add (.refl _), he.top, he.width, he.height⟩
    simp only [outline_congr (Geometry.tilted_same he skew), shapeText_congr hroom]
  | trapBox top bottom =>
    refine of_bind_congr fun top _ => of_bind_congr fun bottom _ => corners_bind_congr (h _) fun e e' he => ?_
    simp only [outline_congr (Geometry.trapezoid_same he top bottom), shapeText_congr he.area]
  | notchBox outward side =>
    refine of_bind_congr fun side _ => corners_bind_congr (h _) fun e e' he => ?_
    simp only [outline_congr (Geometry.notched_same he side outward), shapeText_congr he.area]

/-- A shape that is drawn has found both of its pins. -/
theorem exists_pins {s : ShapeCommand} {fragment : Fragment} {b' : Board} (hb : b.IsFinite)
    (h : s.draw b = .ok fragment b') :
    ∃ a a', b.pins.point? s.first = some a ∧ b.pins.point? s.second = some a' := by
  obtain ⟨bounds, hpasses⟩ := exists_passes hb h
  obtain ⟨a, ha, hrest⟩ := exists_of_except_bind_ok hpasses.corners
  obtain ⟨a', ha', -⟩ := exists_of_except_bind_ok hrest
  exact ⟨a, a', (Meaning.pin_gives _ _ _).ok ha, (Meaning.pin_gives _ _ _).ok ha'⟩

end ShapeCommand

/-! ## Lines -/

/-- A line with the command of a shape: its two pins, and all other words. -/
structure IsShapeLine (line : String) (kind : ShapeKind) (p q : String) (words : List String) : Prop where
  verb : verbOf line = some (.shape kind)
  tokens : ∃ first, Text.tokens line = first :: kind.ownWords p q words

theorem ShapeKind.length_ownWords (kind : ShapeKind) (p q : String) (words : List String) :
    (kind.ownWords p q words).length = words.length + 2 := by
  fun_cases ShapeKind.ownWords kind p q words <;> simp

/-- The pins of a shape have no part in what else its words are. -/
theorem ShapeCommand.ofWords_ownWords (kind : ShapeKind) (words : List String) :
    (∀ p q, ofWords kind (kind.ownWords p q words) = none) ∨
      ∃ shape text, ∀ p q, ofWords kind (kind.ownWords p q words) = some ⟨shape, p, q, text⟩ := by
  cases kind with
  | box | smallBox | pill | hex => exact .inr ⟨_, _, fun _ _ => rfl⟩
  | table | tiltBox | boxOut | boxIn =>
    cases words with
    | nil => exact .inl fun _ _ => rfl
    | cons parameter text => exact .inr ⟨_, _, fun _ _ => rfl⟩
  | trapBox =>
    match words with
    | [] | [_] => exact .inl fun _ _ => rfl
    | top :: bottom :: text => exact .inr ⟨_, _, fun _ _ => rfl⟩

/-- Lines of one shape with the same words hold the same but for the pins, or are all at fault. -/
theorem IsShapeLine.ofLine_cases (kind : ShapeKind) (words : List String) :
    (∃ f, ∀ line p q, IsShapeLine line kind p q words → Command.ofLine line = .error f) ∨
      ∃ shape text, ∀ line p q, IsShapeLine line kind p q words →
        Command.ofLine line = .ok (.shape ⟨shape, p, q, text⟩) := by
  have hline {line p q : String} (h : IsShapeLine line kind p q words) :
      Command.ofLine line =
        if maxCapacity ≤ words.length + 3 then
          .error (.breakdown (.words (.tooManyElements (words.length + 3 : Nat))))
        else (Verb.shape kind).parse (kind.ownWords p q words) := by
    obtain ⟨hverb, first, htokens⟩ := h
    have hkeyword : Verb.ofKeyword? (Text.lowercase first) = some (.shape kind) := by
      rwa [verbOf, htokens] at hverb
    rw [Command.ofLine_eq, htokens, List.length_cons, kind.length_ownWords, Command.ofTokens, hkeyword]
  by_cases hlength : maxCapacity ≤ words.length + 3
  · exact .inl ⟨_, fun line p q h => (hline h).trans (if_pos hlength)⟩
  rcases ShapeCommand.ofWords_ownWords kind words with hnone | ⟨shape, text, hsome⟩
  · refine .inl ⟨.complaint (.tooFewWords (Verb.shape kind).title (Verb.shape kind).needs (words.length + 2)), ?_⟩
    intro line p q h
    rw [hline h, if_neg hlength, Verb.parse]
    simp only [Command.ofWords, hnone, Option.map_none, kind.length_ownWords]
  · refine .inr ⟨shape, text, fun line p q h => ?_⟩
    rw [hline h, if_neg hlength, Verb.parse]
    simp only [Command.ofWords, hsome, Option.map_some]

namespace IsShapeLine

variable {b b' : Board} {fragment : Fragment} {number : Nat} {line other p q p' q' : String} {kind : ShapeKind}
  {words : List String}

theorem exists_pins (hb : b.IsFinite) (hline : IsShapeLine line kind p q words)
    (h : executeAt number line b = .ok fragment b') : ∃ a a', b.pins.point? p = some a ∧ b.pins.point? q = some a' := by
  rw [executeAt_eq] at h
  rcases ofLine_cases kind words with ⟨f, herror⟩ | ⟨shape, text, hok⟩
  · rw [execute_of_error (herror line p q hline)] at h
    cases h
  · rw [execute_of_ok (hok line p q hline)] at h
    exact ShapeCommand.exists_pins (hb.onLine number) h

theorem executeAt_congr (hb : b.IsFinite) (hline : IsShapeLine line kind p q words)
    (hother : IsShapeLine other kind p' q' words) (h : b.pins.SameRectangle p q p' q') :
    executeAt number other b = executeAt number line b := by
  rw [executeAt_eq, executeAt_eq]
  rcases ofLine_cases kind words with ⟨f, herror⟩ | ⟨shape, text, hok⟩
  · rw [execute_of_error (herror line p q hline), execute_of_error (herror other p' q' hother)]
  · rw [execute_of_ok (hok line p q hline), execute_of_ok (hok other p' q' hother)]
    exact (ShapeCommand.draw_congr (b := b.onLine number) (Meaning.corners_same hb.pins h) shape text).symm

end IsShapeLine

theorem PinTable.sameRectangle_swap {t : PinTable} {p q : String} {a a' : Point} (hp : t.point? p = some a)
    (hq : t.point? q = some a') : t.SameRectangle p q q p :=
  ⟨a, a', a', a, hp, hq, hq, hp, .inr ⟨.refl _, .refl _⟩, .inr ⟨.refl _, .refl _⟩⟩

/-- On any board of a session a shape depends neither on the order of its pins, as far as both are there, nor on which
two opposite corners of their rectangle they are: what is drawn, the labels and the fault of a line are the same. -/
theorem executeAt_sameRectangle (lines : List (Nat × String)) (number : Nat) {line p q : String} {kind : ShapeKind}
    {words : List String} (hline : IsShapeLine line kind p q words) :
    (∀ swapped, IsShapeLine swapped kind q p words →
      (∀ fragment b', executeAt number swapped (Board.session lines) = .ok fragment b' ↔
        executeAt number line (Board.session lines) = .ok fragment b') ∧
      ((Board.session lines).pins.point? p ≠ none → (Board.session lines).pins.point? q ≠ none →
        executeAt number swapped (Board.session lines) = executeAt number line (Board.session lines))) ∧
      ∀ other p' q', IsShapeLine other kind p' q' words → (Board.session lines).pins.SameRectangle p q p' q' →
        executeAt number other (Board.session lines) = executeAt number line (Board.session lines) := by
  have hb := Board.session_isFinite lines
  refine ⟨fun swapped hswapped => ?_, fun other p' q' hother h => hline.executeAt_congr hb hother h⟩
  have hsame {a a' : Point} (hp : (Board.session lines).pins.point? p = some a)
      (hq : (Board.session lines).pins.point? q = some a') :
      executeAt number swapped (Board.session lines) = executeAt number line (Board.session lines) :=
    hline.executeAt_congr hb hswapped (PinTable.sameRectangle_swap hp hq)
  refine ⟨fun fragment b' => ⟨fun h => ?_, fun h => ?_⟩, fun hp hq => ?_⟩
  · obtain ⟨a', a, hq, hp⟩ := hswapped.exists_pins hb h
    exact (hsame hp hq).symm.trans h
  · obtain ⟨a, a', hp, hq⟩ := hline.exists_pins hb h
    exact (hsame hp hq).trans h
  · obtain ⟨a, hp⟩ := Option.ne_none_iff_exists'.1 hp
    obtain ⟨a', hq⟩ := Option.ne_none_iff_exists'.1 hq
    exact hsame hp hq

/-- Four pins with zeros of either sign at the corners of a rectangle that has no width. -/
def cornerPins : List (Nat × String) :=
  [(1, "Translate -0 -0"), (2, "Pin a -0 7"), (3, "Pin b 0 -0"), (4, "Corner c a b"), (5, "Corner d b a")]

/-- A hexagon is the same between any two opposite corners. -/
theorem executeAt_sameRectangle_zeros :
    ∃ fragment b', executeAt 6 "Hex a b x" (Board.session cornerPins) = .ok fragment b' ∧ b'.labels.length = 1 ∧
      executeAt 6 "hex  b a x" (Board.session cornerPins) = .ok fragment b' ∧
        executeAt 6 "Hex d c x" (Board.session cornerPins) = .ok fragment b' := by
  have hline : IsShapeLine "Hex a b x" .hex "a" "b" ["x"] := ⟨by decide +kernel, "Hex", by decide +kernel⟩
  have hswapped : IsShapeLine "hex  b a x" .hex "b" "a" ["x"] := ⟨by decide +kernel, "hex", by decide +kernel⟩
  have hother : IsShapeLine "Hex d c x" .hex "d" "c" ["x"] := ⟨by decide +kernel, "Hex", by decide +kernel⟩
  have hcorners : (Board.session cornerPins).pins.SameRectangle "a" "b" "d" "c" :=
    ⟨⟨.zero true, 7⟩, ⟨0, .zero true⟩, ⟨0, 7⟩, ⟨.zero true, .zero true⟩, by decide +kernel, by decide +kernel,
      by decide +kernel, by decide +kernel, .inr ⟨.refl _, .refl _⟩, .inl ⟨.refl _, .refl _⟩⟩
  have hcount : labelCount (executeAt 6 "Hex a b x") (Board.session cornerPins) = some 1 := by decide +kernel
  obtain ⟨fragment, b', h, hlabels⟩ := exists_of_labelCount hcount
  obtain ⟨hswap, hopposite⟩ := executeAt_sameRectangle cornerPins 6 hline
  refine ⟨fragment, b', h, hlabels, ?_, ?_⟩
  · exact ((hswap _ hswapped).1 fragment b').2 h
  · exact (hopposite _ _ _ hother hcorners).trans h

end Pinboard
