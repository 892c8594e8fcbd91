import Pinboard.Chart.Program
import Pinboard.Proofs.Chart.Auto

/-!
# What commands change

One statement for all commands (`Command.run_ends`): a command that is carried out leaves finite points and
adds the pins that it creates (`Command.creates`), and no others; a command that fails leaves the board as it
is, apart from the pins of a shape that sets its own (`Command.leavings`). A command fails with a complaint,
or as its columns do (`Command.run_breaks_iff`).
-/

namespace Pinboard

open Pinboard.Ring (maxCapacity)

/-! ## The names that are added -/

variable {b b' : Board} {names : List String}

namespace Board

/-- All points are finite still, the names of the table are the old ones and the given ones, and the labels
that are new have finite room. -/
structure Adds (b : Board) (names : List String) (b' : Board) : Prop where
  finite : b'.IsFinite
  names : ∀ name, name ∈ b'.pins.names ↔ name ∈ names ∨ name ∈ b.pins.names
  labels : ∃ labels : List Label, (∀ l ∈ labels, l.HasRoom) ∧ b'.labels = b.labels ++ labels

theorem SetsEach.adds (h : b.SetsEach names b') (hb : b.IsFinite) : b.Adds names b' := by
  obtain ⟨pins, hnames, hfinite, rfl⟩ := h
  refine ⟨hb.extend hfinite, ?_, [], by simp, rfl⟩
  intro name
  show name ∈ (b.pins.setAll pins).names ↔ _
  rw [PinTable.mem_names_setAll, hnames]

theorem Sets.adds (h : b.Sets names b') (hb : b.IsFinite) : b.Adds names b' := h.each.adds hb

/-- What leaves the pins and the labels alone adds none. -/
theorem Adds.none (hb : b.IsFinite) (hpins : b'.pins = b.pins) (hoffset : b'.offset.isFinite = true)
    (hlabels : b'.labels = b.labels) : b.Adds [] b' := by
  refine ⟨⟨hpins ▸ hb.pins, hoffset⟩, ?_, [], by simp, by simpa using hlabels⟩
  intro name
  rw [hpins]
  simp

theorem Labels.adds {b₁ : Board} (h : b₁.Labels b') (h₁ : b.Adds names b₁) : b.Adds names b' := by
  obtain ⟨labels, hroom, rfl⟩ := h
  obtain ⟨labels₁, hroom₁, hlabels₁⟩ := h₁.labels
  refine ⟨⟨h₁.finite.pins, h₁.finite.offset⟩, h₁.names, labels₁ ++ labels, ?_, ?_⟩
  · exact List.forall_mem_append.2 ⟨hroom₁, hroom⟩
  · show b₁.labels ++ labels = _
    rw [hlabels₁, List.append_assoc]

end Board

/-- Moving pins adds none. -/
theorem Placement.Moves.adds (h : Moves b names b') (hb : b.IsFinite) : b.Adds [] b' := by
  obtain ⟨hsets, hnames⟩ := h
  obtain ⟨hfinite, hmem, hlabels⟩ := hsets.adds hb
  refine ⟨hfinite, ?_, hlabels⟩
  intro name
  rw [hmem]
  constructor
  · rintro (h | h)
    · exact .inr (hnames name h)
    · exact .inr h
  · rintro (h | h)
    · cases h
    · exact .inr h

/-! ## The commands -/

namespace Command

variable {c : Command}

/-- The names of the pins that a command creates. -/
def creates : Command → List String
  | .pin name _ _ | .offset name _ _ _ | .split name _ _ | .corner name _ _ | .project name _ _ _ => [name]
  | .auto c => autoNames c.name
  | _ => []

/-- The names of the pins that a command may have changed when it fails. -/
def leavings : Command → List String
  | .auto c => autoNames c.name
  | _ => []

/-- What is wrong with the columns of a table, if the command draws one. -/
def fault : Command → Option Breakdown
  | .shape s => s.fault
  | .auto c => c.fault
  | _ => none

/-- The command with a table of one column and without text in place of a table. -/
def plain : Command → Command
  | .shape s => .shape s.plain
  | .auto c => .auto c.plain
  | c => c

/-- Groups are not empty where their extent is asked for, and there are words enough for every shape. -/
def IsSound : Command → Prop
  | .moveTo _ _ group | .reset group => group ≠ []
  | .auto c => c.IsSound
  | _ => True

/-- What holds of a command that is carried out. -/
def Done (c : Command) (b b' : Board) : Prop := c.fault = none ∧ b.Adds c.creates b'

/-- What holds of a command that fails. -/
def Fails (c : Command) (b : Board) (f : Fault) (b' : Board) : Prop :=
  (f.IsComplaint ∨ f.breakdown? = c.fault) ∧ b.SetsAmong c.leavings b'

theorem fails_of_complains {f : Fault} (h : Complains b f b') : c.Fails b f b' := by
  obtain ⟨hf, rfl⟩ := h
  exact ⟨.inl hf, .refl _ _⟩

/-- A step after which there is nothing to draw. -/
theorem quiet_ends {w : Work Unit} (hfault : c.fault = none)
    (h : Ends w b (fun _ b' => b.Adds c.creates b') (Complains b)) :
    Ends (w >>= fun _ => pure ([] : Fragment)) b (fun _ b' => c.Done b b') (c.Fails b) :=
  (h.mono_bad fun _ _ => fails_of_complains).bind fun _ _ h => .pure ⟨hfault, h⟩

theorem sets_ends {w : Work Unit} (hb : b.IsFinite) (hfault : c.fault = none)
    (h : Ends w b (fun _ b' => b.Sets c.creates b') (Complains b)) :
    Ends (w >>= fun _ => pure ([] : Fragment)) b (fun _ b' => c.Done b b') (c.Fails b) :=
  quiet_ends hfault (h.mono_good fun _ _ h => h.adds hb)

theorem moves_ends {w : Work Unit} (hb : b.IsFinite) (hfault : c.fault = none) (hcreates : c.creates = [])
    (h : Ends w b (fun _ b' => Placement.Moves b names b') (Complains b)) :
    Ends (w >>= fun _ => pure ([] : Fragment)) b (fun _ b' => c.Done b b') (c.Fails b) :=
  quiet_ends hfault (h.mono_good fun _ _ h => hcreates ▸ h.adds hb)

/-- The contract of all commands. -/
theorem run_ends (hb : b.IsFinite) (hc : c.IsSound) : Ends c.run b (fun _ b' => c.Done b b') (c.Fails b) := by
  cases c with
  | pin name x y => exact sets_ends hb rfl (Placement.pin_ends name x y)
  | offset name source dx dy => exact sets_ends hb rfl (Placement.offset_ends name source dx dy)
  | split name first second => exact sets_ends hb rfl (Placement.split_ends name first second)
  | corner name first second => exact sets_ends hb rfl (Placement.corner_ends hb name first second)
  | project name first second target => exact sets_ends hb rfl (Placement.project_ends name first second target)
  | move dx dy group => exact moves_ends hb rfl rfl (Placement.move_ends dx dy group)
  | moveTo anchor base group => exact moves_ends hb rfl rfl (Placement.moveTo_ends anchor base hc)
  | moveOver base reference group => exact moves_ends hb rfl rfl (Placement.moveOver_ends base reference group)
  | reset group => exact moves_ends hb rfl rfl (Placement.reset_ends hc)
  | translate x y =>
    refine quiet_ends rfl ((Placement.translate_ends x y).mono_good fun _ b' h => ?_)
    obtain ⟨p, hp, rfl⟩ := h
    exact .none hb rfl hp rfl
  | setFill colour | setStroke colour => exact .change_bind (.pure ⟨rfl, .none hb rfl hb.offset rfl⟩)
  | shape s =>
    refine (ShapeCommand.draw_ends hb s).mono (fun _ b' h => ?_) fun f b' h => ?_
    · exact ⟨h.2, h.1.adds (.none hb rfl hb.offset rfl)⟩
    · obtain ⟨hf, rfl⟩ := h
      exact ⟨hf, .refl _ _⟩
  | auto c =>
    refine (AutoCommand.draw_ends hb hc).mono_good fun _ b' h => ?_
    obtain ⟨hfault, b₁, hsets, hlabels⟩ := h
    exact ⟨hfault, hlabels.adds (hsets.adds hb)⟩
  | line l =>
    refine (LineCommand.draw_ends hb l).mono (fun _ b' h => ?_) fun _ _ => fails_of_complains
    exact ⟨rfl, h.adds (.none hb rfl hb.offset rfl)⟩

/-- A command breaks exactly if the columns of its table are at fault and without them it could be carried
out. -/
theorem run_breaks_iff (hb : b.IsFinite) (hc : c.IsSound) (bd : Breakdown) :
    (∃ b', c.run b = .error (.breakdown bd) b') ↔ c.fault = some bd ∧ ∃ fragment b', c.plain.run b = .ok fragment b' := by
  cases c with
  | shape s => exact ShapeCommand.draw_breaks_iff hb s bd
  | auto c => exact AutoCommand.draw_breaks_iff hb hc bd
  | _ =>
    constructor
    · rintro ⟨b', h⟩
      obtain ⟨⟨_, hf⟩ | hf, -⟩ := (run_ends hb hc).error h
      · cases hf
      · cases hf
    · rintro ⟨hf, -⟩
      cases hf

end Command

/-! ## The words of a command -/

namespace Verb

/-- The names of the pins that a verb creates under a name. -/
def creates (name : String) : Verb → List String
  | .pin | .offset | .split | .corner | .project => [name]
  | .auto _ => autoNames name
  | _ => []

/-- The names of the pins that a verb may have changed under a name when it fails. -/
def leavings (name : String) : Verb → List String
  | .auto _ => autoNames name
  | _ => []

end Verb

/-- The name of a shape that sets its own pins is the first of its words, and what remains is for the
shape. -/
theorem AutoCommand.ofWords_spec {kind : ShapeKind} {words : List String} {c : AutoCommand}
    (h : AutoCommand.ofWords kind words = some c) (hlt : words.length < maxCapacity) :
    c.IsSound ∧ words.head? = some c.name := by
  revert h
  fun_cases AutoCommand.ofWords kind words
  · intro h
    cases h
  · rename_i name x y width height words hle
    intro h
    cases h
    refine ⟨⟨?_, ?_⟩, rfl⟩
    · exact List.length_take_of_le (Nat.le_of_not_lt hle)
    · rw [List.length_take, List.length_drop]
      simp only [List.length_cons] at hlt
      omega
  · intro h
    cases h

/-- What a command is about is the first of its words. -/
theorem Command.ofWords_spec {verb : Verb} {words : List String} {c : Command}
    (h : Command.ofWords verb words = some c) (hlt : words.length < maxCapacity) :
    c.IsSound ∧ c.creates = words.head?.elim [] verb.creates ∧ c.leavings = words.head?.elim [] verb.leavings := by
  have hnone : ∀ names : Option String, names.elim [] (fun _ => ([] : List String)) = [] := fun names => by
    cases names <;> rfl
  revert h
  fun_cases Command.ofWords verb words <;> intro h
  case case16 =>
    obtain ⟨a, ha, rfl⟩ := Option.map_eq_some_iff.1 h
    obtain ⟨hsound, hhead⟩ := AutoCommand.ofWords_spec ha hlt
    rw [hhead]
    exact ⟨hsound, rfl, rfl⟩
  case case15 | case17 =>
    obtain ⟨a, ha, rfl⟩ := Option.map_eq_some_iff.1 h
    exact ⟨trivial, (hnone _).symm, (hnone _).symm⟩
  case case18 => cases h
  case case11 | case12 | case13 | case14 =>
    cases h
    exact ⟨trivial, (hnone _).symm, (hnone _).symm⟩
  case case7 | case9 =>
    cases h
    exact ⟨List.cons_ne_nil _ _, rfl, rfl⟩
  all_goals
    cases h
    exact ⟨trivial, rfl, rfl⟩

end Pinboard
