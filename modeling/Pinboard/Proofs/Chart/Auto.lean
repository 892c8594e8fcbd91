import Pinboard.Chart.AutoShape
import Pinboard.Proofs.Chart.Table

/-!
# Shapes that set their own pins

These commands change the board before they are through: when the shape cannot be drawn, its pins are there
all the same. `AutoCommand.draw_ends` says what is left behind in that case, and that the eight pins are the
only ones. As the words of the shape are put together by the command itself they are always enough, so the
shape fails only as a shape of its kind does (`AutoCommand.draw_breaks_iff`).
-/

namespace Pinboard

open Work
open Pinboard.Ring (maxCapacity)

/-! ## Some of the pins -/

namespace Board

variable {b b' b'' : Board} {names more : List String}

/-- Pins are set at finite points, all of them with one of the given names, and nothing else changes. -/
def SetsAmong (b : Board) (names : List String) (b' : Board) : Prop :=
  ∃ pins : List (String × Point),
    (∀ e ∈ pins, e.1 ∈ names) ∧ (∀ e ∈ pins, e.2.isFinite = true) ∧ b' = b.extend pins []

theorem SetsAmong.refl (b : Board) (names : List String) : b.SetsAmong names b := by
  refine ⟨[], ?_, ?_, (extend_nil b).symm⟩ <;> simp

theorem SetsAmong.trans (h : b.SetsAmong names b') (h' : b'.SetsAmong names b'') : b.SetsAmong names b'' := by
  obtain ⟨pins, hnames, hfinite, rfl⟩ := h
  obtain ⟨pins', hnames', hfinite', rfl⟩ := h'
  refine ⟨pins ++ pins', ?_, ?_, extend_extend b pins pins' [] []⟩
  · exact List.forall_mem_append.2 ⟨hnames, hnames'⟩
  · exact List.forall_mem_append.2 ⟨hfinite, hfinite'⟩

theorem SetsAmong.mono (h : b.SetsAmong names b') (hle : ∀ name ∈ names, name ∈ more) : b.SetsAmong more b' := by
  obtain ⟨pins, hnames, hfinite, rfl⟩ := h
  exact ⟨pins, fun e he => hle _ (hnames e he), hfinite, rfl⟩

theorem Sets.among (h : b.Sets names b') (hle : ∀ name ∈ names, name ∈ more) : b.SetsAmong more b' := by
  obtain ⟨pins, rfl, hfinite, rfl⟩ := h
  exact ⟨pins, fun e he => hle _ (List.mem_map_of_mem he), hfinite, rfl⟩

theorem SetsAmong.isFinite (h : b.SetsAmong names b') (hb : b.IsFinite) : b'.IsFinite := by
  obtain ⟨pins, -, hfinite, rfl⟩ := h
  exact hb.extend hfinite

/-- Apart from the pins everything is as it was. -/
theorem SetsAmong.same (h : b.SetsAmong names b') :
    b'.fill = b.fill ∧ b'.stroke = b.stroke ∧ b'.offset = b.offset ∧ b'.lineCounter = b.lineCounter := by
  obtain ⟨pins, -, -, rfl⟩ := h
  exact ⟨rfl, rfl, rfl, rfl⟩

/-- The pins of other names are as they were. -/
theorem SetsAmong.point? (h : b.SetsAmong names b') {name : String} (hname : name ∉ names) :
    b'.pins.point? name = b.pins.point? name := by
  obtain ⟨pins, hnames, -, rfl⟩ := h
  refine PinTable.point?_setAll _ fun hmem => ?_
  obtain ⟨e, he, rfl⟩ := List.mem_map.1 hmem
  exact hname (hnames e he)

theorem SetsAmong.eq_of_nil (h : b.SetsAmong [] b') : b' = b := by
  obtain ⟨pins, hnames, -, rfl⟩ := h
  obtain rfl := List.eq_nil_iff_forall_not_mem.2 fun e he => List.not_mem_nil (hnames e he)
  exact extend_nil b

theorem Sets.trans (h : b.Sets names b') (h' : b'.Sets more b'') : b.Sets (names ++ more) b'' := by
  obtain ⟨pins, hnames, hfinite, rfl⟩ := h
  obtain ⟨pins', hnames', hfinite', rfl⟩ := h'
  refine ⟨pins ++ pins', by rw [List.map_append, hnames, hnames'], ?_, extend_extend b pins pins' [] []⟩
  exact List.forall_mem_append.2 ⟨hfinite, hfinite'⟩

/-- Pins are set at finite points, each of the given names and no others, and nothing else changes. -/
def SetsEach (b : Board) (names : List String) (b' : Board) : Prop :=
  ∃ pins : List (String × Point),
    (∀ name, name ∈ pins.map Prod.fst ↔ name ∈ names) ∧ (∀ e ∈ pins, e.2.isFinite = true) ∧ b' = b.extend pins []

theorem Sets.each (h : b.Sets names b') : b.SetsEach names b' := by
  obtain ⟨pins, rfl, hfinite, rfl⟩ := h
  exact ⟨pins, fun _ => Iff.rfl, hfinite, rfl⟩

/-- Some of the pins may be set a second time. -/
theorem Sets.again (h : b.Sets (names ++ more) b') (hle : ∀ name ∈ more, name ∈ names) : b.SetsEach names b' := by
  obtain ⟨pins, hnames, hfinite, rfl⟩ := h
  refine ⟨pins, fun name => ?_, hfinite, rfl⟩
  rw [hnames, List.mem_append]
  exact ⟨fun h => h.elim id (hle name), .inl⟩

theorem SetsEach.among (h : b.SetsEach names b') : b.SetsAmong names b' := by
  obtain ⟨pins, hnames, hfinite, rfl⟩ := h
  exact ⟨pins, fun e he => (hnames _).1 (List.mem_map_of_mem he), hfinite, rfl⟩

end Board

/-! ## The pins around a rectangle -/

variable {b : Board}

/-- The names of the pins around a rectangle. -/
def autoNames (name : String) : List String := autoPins.map fun pin => name ++ pin.1

theorem requirePositive_ends (command dimension : String) {x : Binary64} (hx : x.isFinite = true) :
    Ends (requirePositive command dimension x) b (fun _ b' => b' = b) (Complains b) := by
  rw [requirePositive]
  split
  · obtain ⟨text, htext⟩ := Binary64.numberText_ok hx
    rw [htext]
    exact .computed_bind (fun _ _ => .throw ⟨⟨_, rfl⟩, rfl⟩) fun e he => by cases he
  · exact .pure rfl

/-- Some of the pins may be set before one of them turns out to be out of range. -/
def Halfway (b : Board) (names : List String) (f : Fault) (b' : Board) : Prop :=
  f.IsComplaint ∧ b.SetsAmong names b'

theorem Complains.halfway {f : Fault} {b' : Board} (h : Complains b f b') (names : List String) :
    Halfway b names f b' := by
  obtain ⟨hf, rfl⟩ := h
  exact ⟨hf, .refl _ _⟩

theorem places_ends {α : Type} (command : String) (name : α → String) (point : α → Point) (xs : List α) :
    Ends (xs.forM fun x => place command (name x) (point x)) b (fun _ b' => b.Sets (xs.map name) b')
      (Halfway b (xs.map name)) := by
  induction xs generalizing b with
  | nil => exact .pure ⟨[], rfl, by simp, by simp⟩
  | cons x xs ih =>
    have hplace := place_ends (b := b) command (name x) (point x)
    refine (hplace.mono_bad fun _ _ h => h.halfway _).bind fun _ b' hb' => ?_
    refine ih.mono (fun _ b'' h => hb'.trans h) fun f b'' h => ⟨h.1, ?_⟩
    refine (hb'.among ?_).trans (h.2.mono fun _ hmem => List.mem_cons_of_mem _ hmem)
    simp

theorem placeAround_ends (command name : String) (a : Area) :
    Ends (placeAround command name a) b (fun _ b' => b.Sets (autoNames name) b') (Halfway b (autoNames name)) :=
  places_ends command _ _ autoPins

theorem pinSuffix_mem (name : String) (side : Side) : name ++ side.pinSuffix ∈ autoNames name := by
  cases side <;> simp [autoNames, autoPins, Side.pinSuffix]

theorem pushOut_ends (command name : String) (side : Side) (a : Area) (h : name ++ side.pinSuffix ∈ b.pins.names) :
    Ends (pushOut command name side a) b (fun _ b' => b.Sets [name ++ side.pinSuffix] b') (Complains b) := by
  obtain ⟨p, hp⟩ := Option.isSome_iff_exists.1 ((PinTable.mem_names_iff _ _).1 h)
  refine .pins_bind ?_
  rw [hp]
  exact shift_ends command [(name ++ side.pinSuffix, p)] _ _

namespace AutoCommand

variable {c : AutoCommand}

/-- The words for the shape are as many as it has parameters, and no more than were on a line. -/
structure IsSound (c : AutoCommand) : Prop where
  parameters : c.parameters.length = c.kind.parameters
  rest : c.parameters.length + c.rest.length + 2 < maxCapacity

theorem notchSide_gives (c : AutoCommand) : Gives c.notchSide fun _ => True := by
  rw [notchSide]
  split
  · exact (Meaning.side_gives _ _).bind fun side _ _ => .of_ok trivial
  · exact .of_ok trivial

/-- All the pins are set, or some are and the line is at fault. -/
theorem setPins_ends (c : AutoCommand) :
    Ends c.setPins b (fun _ b' => b.SetsEach (autoNames c.name) b') (Halfway b (autoNames c.name)) := by
  have hcomplain {f : Fault} (h : f.IsComplaint) : Halfway b (autoNames c.name) f b := ⟨h, .refl _ _⟩
  refine .given_bind (Meaning.number_gives _ _ c.x) (fun x _ _ => ?_) fun _ => hcomplain
  refine .given_bind (Meaning.number_gives _ _ c.y) (fun y _ _ => ?_) fun _ => hcomplain
  refine .given_bind (Meaning.number_gives _ _ c.width) (fun width _ hwidth => ?_) fun _ => hcomplain
  refine .given_bind (Meaning.number_gives _ _ c.height) (fun height _ hheight => ?_) fun _ => hcomplain
  have hpositive (dimension : String) {x : Binary64} (hx : x.isFinite = true) :=
    (requirePositive_ends (b := b) c.kind.autoTitle dimension hx).mono_bad
      fun _ _ h => h.halfway (autoNames c.name)
  refine (hpositive "width" hwidth).bind fun _ b' hb' => ?_
  subst hb'
  refine (hpositive "height" hheight).bind fun _ b' hb' => ?_
  subst hb'
  refine .given_bind c.notchSide_gives (fun side _ _ => ?_) fun _ => hcomplain
  refine (placeAround_ends _ c.name _).bind fun _ b' hb' => ?_
  cases side with
  | none => exact .pure hb'.each
  | some side =>
    have hmem : c.name ++ side.pinSuffix ∈ b'.pins.names := by
      obtain ⟨pins, hnames, -, rfl⟩ := hb'
      refine (PinTable.mem_names_setAll _ _ _).2 (.inl ?_)
      rw [hnames]
      exact pinSuffix_mem c.name side
    refine (pushOut_ends _ c.name side _ hmem).mono (fun _ b'' h => ?_) fun f b'' h => ?_
    · refine (hb'.trans h).again ?_
      simpa using pinSuffix_mem c.name side
    · obtain ⟨hf, rfl⟩ := h
      exact ⟨hf, hb'.among fun _ h => h⟩

/-! ## The shape between the pins -/

/-- What is wrong with the columns of the shape, if it has any. -/
def fault (c : AutoCommand) : Option Breakdown :=
  match c.kind, c.parameters with
  | .table, columns :: _ => columnFault columns (" ".intercalate c.rest)
  | _, _ => none

/-- The pins with a table of one column and without text in place of a table. -/
def plain (c : AutoCommand) : AutoCommand :=
  match c.kind with
  | .table => { c with parameters := ["1"], rest := [] }
  | _ => c

theorem plain_isSound (h : c.IsSound) : c.plain.IsSound := by
  rw [plain]
  split
  next hkind => exact ⟨by rw [hkind]; rfl, show 3 < maxCapacity by decide⟩
  next => exact h

/-- The words for the shape make a shape, whose columns are the given ones. -/
theorem ofWords_shapeWords (h : c.IsSound) :
    ∃ s, ShapeCommand.ofWords c.kind c.shapeWords = some s ∧ s.fault = c.fault ∧
      ShapeCommand.ofWords c.plain.kind c.plain.shapeWords = some s.plain := by
  obtain ⟨kind, name, x, y, width, height, parameters, rest⟩ := c
  have hlen := h.parameters
  cases kind with
  | box | smallBox | pill | hex =>
    obtain rfl := List.length_eq_zero_iff.1 hlen
    exact ⟨_, rfl, rfl, rfl⟩
  | table | tiltBox | boxOut | boxIn =>
    obtain ⟨parameter, rfl⟩ := List.length_eq_one_iff.1 hlen
    exact ⟨_, rfl, rfl, rfl⟩
  | trapBox =>
    obtain ⟨top, bottom, rfl⟩ := List.length_eq_two.1 hlen
    exact ⟨_, rfl, rfl, rfl⟩

theorem shape_eq (h : c.IsSound) {s : ShapeCommand} (hs : ShapeCommand.ofWords c.kind c.shapeWords = some s) :
    c.shape = .ok s := by
  have hlen : c.shapeWords.length = c.parameters.length + c.rest.length + 2 := by
    rw [shapeWords]
    split
    · rw [List.length_append, List.length_append]
      show _ + 2 + _ = _
      omega
    · rw [List.length_append, List.length_append]
      show 2 + _ + _ = _
      omega
  obtain ⟨words, hw, hh⟩ := wordsOf_holds (hlen ▸ h.rest)
  have hreads := ShapeCommand.reads c.kind hh
  rw [hs] at hreads
  rw [shape, hw]
  exact hreads

/-- The command sets its pins and draws a shape, whose columns are the given ones. -/
theorem draw_eq (h : c.IsSound) :
    ∃ s : ShapeCommand, s.fault = c.fault ∧ c.draw = (c.setPins >>= fun _ => s.draw) ∧
      c.plain.draw = (c.setPins >>= fun _ => s.plain.draw) := by
  obtain ⟨s, hs, hfault, hplain⟩ := ofWords_shapeWords h
  refine ⟨s, hfault, ?_, ?_⟩
  · rw [draw, shape_eq h hs]
    rfl
  · have hpins : c.plain.setPins = c.setPins := by
      obtain ⟨kind, name, x, y, width, height, parameters, rest⟩ := c
      cases kind <;> rfl
    rw [draw, shape_eq (plain_isSound h) hplain, hpins]
    rfl

/-- A shape that sets its own pins sets all of them, with labels, or fails and leaves some of them behind. -/
theorem draw_ends (hb : b.IsFinite) (h : c.IsSound) :
    Ends c.draw b
      (fun _ b' => c.fault = none ∧ ∃ b₁, b.SetsEach (autoNames c.name) b₁ ∧ b₁.Labels b')
      (fun f b' => (f.IsComplaint ∨ f.breakdown? = c.fault) ∧ b.SetsAmong (autoNames c.name) b') := by
  obtain ⟨s, hfault, hdraw, -⟩ := draw_eq h
  rw [hdraw]
  refine ((setPins_ends c).mono_bad fun f b' h => ⟨.inl h.1, h.2⟩).bind fun _ b₁ hb₁ => ?_
  refine (ShapeCommand.draw_ends (hb₁.among.isFinite hb) s).mono (fun _ b' hl => ?_) fun f b' hf => ?_
  · exact ⟨hfault ▸ hl.2, b₁, hb₁, hl.1⟩
  · obtain ⟨hmeet, rfl⟩ := hf
    exact ⟨hfault ▸ hmeet, hb₁.among⟩

/-- The command breaks exactly if the columns are at fault and without them it could be carried out. -/
theorem draw_breaks_iff (hb : b.IsFinite) (h : c.IsSound) (bd : Breakdown) :
    (∃ b', c.draw b = .error (.breakdown bd) b') ↔
      c.fault = some bd ∧ ∃ fragment b', c.plain.draw b = .ok fragment b' := by
  obtain ⟨s, hfault, hdraw, hplain⟩ := draw_eq h
  rw [hdraw, hplain, ← hfault]
  cases hpins : c.setPins b with
  | ok _ b₁ =>
    rw [bind_of_ok hpins, bind_of_ok hpins]
    exact ShapeCommand.draw_breaks_iff (((setPins_ends c).ok hpins).among.isFinite hb) s bd
  | error f b₁ =>
    obtain ⟨⟨_, rfl⟩, -⟩ := (setPins_ends c).error hpins
    rw [bind_of_error hpins, bind_of_error hpins]
    constructor
    · rintro ⟨b', h⟩
      cases h
    · rintro ⟨-, fragment, b', h⟩
      cases h

end AutoCommand
end Pinboard
