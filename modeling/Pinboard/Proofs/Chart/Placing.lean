import Pinboard.Proofs.Chart.Meaning

/-!
# What the commands for pins change

Each command sets the pins that it names at finite points and changes nothing else, or it complains and
changes nothing at all (`Board.Sets`, `Complains`). The commands that move pins set only pins that the
table has already.
-/

namespace Pinboard

/-- Pins of the given names are set at finite points, and nothing else changes. -/
def Board.Sets (b : Board) (names : List String) (b' : Board) : Prop :=
  ∃ pins : List (String × Point),
    pins.map Prod.fst = names ∧ (∀ e ∈ pins, e.2.isFinite = true) ∧ b' = b.extend pins []

/-- The line is at fault, and the board is as it was. -/
def Complains (b : Board) (f : Fault) (b' : Board) : Prop := f.IsComplaint ∧ b' = b

theorem complains {b : Board} (f : Fault) (h : f.IsComplaint) : Complains b f b := ⟨h, rfl⟩

namespace Work

variable {b : Board}

theorem setPin_ends {name : String} {p : Point} {bad : Fault → Board → Prop} (hp : p.isFinite = true) :
    Ends (setPin name p) b (fun _ b' => b.Sets [name] b') bad := by
  refine .change ⟨[(name, p)], rfl, ?_, ?_⟩
  · simpa using hp
  · simp [Board.extend]

theorem setFinitePin_ends (command name : String) (p : Point) :
    Ends (setFinitePin command name p) b (fun _ b' => b.Sets [name] b') (Complains b) := by
  refine .given_bind (Meaning.finitePoint_gives command p) (fun q _ hq => ?_) complains
  exact setPin_ends (hq.1 ▸ hq.2)

theorem place_ends (command name : String) (p : Point) :
    Ends (place command name p) b (fun _ b' => b.Sets [name] b') (Complains b) :=
  .get_bind (setFinitePin_ends command name _)

/-- The targets of a group have its names and are finite. -/
theorem shifted_gives (command : String) (group : List (String × Point)) (dx dy : Binary64) :
    Gives
      (group.mapM fun e : String × Point => do
        return (e.1, ← Meaning.finitePoint command ⟨e.2.x + dx, e.2.y + dy⟩))
      fun moved => moved.map Prod.fst = group.map Prod.fst ∧ ∀ e ∈ moved, e.2.isFinite = true := by
  have h := Gives.mapM (P := fun (e e' : String × Point) => e'.1 = e.1 ∧ e'.2.isFinite = true)
    (k := fun e => do return (e.1, ← Meaning.finitePoint command ⟨e.2.x + dx, e.2.y + dy⟩)) group
    fun e _ => (Meaning.finitePoint_gives command _).bind fun q _ hq => .of_ok ⟨rfl, hq.1 ▸ hq.2⟩
  refine h.mono fun moved hmoved => ?_
  clear h
  induction hmoved with
  | nil => simp
  | cons he _ ih => exact ⟨by rw [List.map_cons, List.map_cons, he.1, ih.1], List.forall_mem_cons.2 ⟨he.2, ih.2⟩⟩

/-- Every target is looked at before the first pin moves. -/
theorem shift_ends (command : String) (group : List (String × Point)) (dx dy : Binary64) :
    Ends (shift command group dx dy) b (fun _ b' => b.Sets (group.map Prod.fst) b') (Complains b) := by
  refine .given_bind (shifted_gives command group dx dy) (fun moved _ hmoved => ?_) complains
  obtain ⟨hnames, hfinite⟩ := hmoved
  exact .change ⟨moved, hnames, hfinite, by simp [Board.extend]⟩

end Work

namespace Placement

open Work

variable {b : Board}

theorem pin_ends (name x y : String) :
    Ends (pin name x y) b (fun _ b' => b.Sets [name] b') (Complains b) := by
  refine .given_bind (Meaning.number_gives _ _ x) (fun x _ _ => ?_) complains
  refine .given_bind (Meaning.number_gives _ _ y) (fun y _ _ => ?_) complains
  exact place_ends _ _ _

theorem offset_ends (name source dx dy : String) :
    Ends (offset name source dx dy) b (fun _ b' => b.Sets [name] b') (Complains b) := by
  refine .pins_bind ?_
  refine .given_bind (Meaning.pin_gives _ _ source) (fun p _ _ => ?_) complains
  refine .given_bind (Meaning.number_gives _ _ dx) (fun dx _ _ => ?_) complains
  refine .given_bind (Meaning.number_gives _ _ dy) (fun dy _ _ => ?_) complains
  exact setFinitePin_ends _ _ _

theorem split_ends (name first second : String) :
    Ends (split name first second) b (fun _ b' => b.Sets [name] b') (Complains b) := by
  refine .pins_bind ?_
  refine .given_bind (Meaning.pin_gives _ _ first) (fun p _ _ => ?_) complains
  refine .pins_bind ?_
  refine .given_bind (Meaning.pin_gives _ _ second) (fun q _ _ => ?_) complains
  exact setFinitePin_ends _ _ _

/-- The point of a corner is not looked at: its coordinates are those of two pins. -/
theorem corner_ends (hb : b.IsFinite) (name first second : String) :
    Ends (corner name first second) b (fun _ b' => b.Sets [name] b') (Complains b) := by
  refine .pins_bind ?_
  refine .given_bind (Meaning.pin_gives _ _ first) (fun p _ hp => ?_) complains
  refine .pins_bind ?_
  refine .given_bind (Meaning.pin_gives _ _ second) (fun q _ hq => ?_) complains
  have hx := ((Point.isFinite_iff p).1 (hb.pins.point hp)).1
  have hy := ((Point.isFinite_iff q).1 (hb.pins.point hq)).2
  exact setPin_ends ((Point.isFinite_iff _).2 ⟨hx, hy⟩)

theorem project_ends (name first second target : String) :
    Ends (project name first second target) b (fun _ b' => b.Sets [name] b') (Complains b) := by
  refine .pins_bind ?_
  refine .given_bind (Meaning.pin_gives _ _ first) (fun p _ _ => ?_) complains
  refine .pins_bind ?_
  refine .given_bind (Meaning.pin_gives _ _ second) (fun q _ _ => ?_) complains
  refine .pins_bind ?_
  refine .given_bind (Meaning.pin_gives _ _ target) (fun r _ _ => ?_) complains
  exact setFinitePin_ends _ _ _

/-- The pins of the names are set, and they were there before. -/
def Moves (b : Board) (names : List String) (b' : Board) : Prop :=
  b.Sets names.eraseDups b' ∧ ∀ name ∈ names.eraseDups, name ∈ b.pins.names

/-- Looking up a group and moving it. -/
theorem group_ends (command : String) (names : List String) {k : List (String × Point) → Work Unit}
    (hk : ∀ group : List (String × Point), group.map Prod.fst = names.eraseDups →
      Ends (k group) b (fun _ b' => b.Sets (group.map Prod.fst) b') (Complains b)) :
    Ends (of (Meaning.group b.pins command names) >>= k) b (fun _ b' => Moves b names b') (Complains b) := by
  refine .given_bind (Meaning.group_gives b.pins command names) (fun group _ hg => ?_) complains
  obtain ⟨hnames, hpins⟩ := hg
  refine (hk group hnames).mono_good fun _ b' hsets => ⟨hnames ▸ hsets, fun name hname => ?_⟩
  rw [← hnames] at hname
  obtain ⟨e, he, rfl⟩ := List.mem_map.1 hname
  rw [PinTable.mem_names_iff, hpins e he]
  rfl

theorem move_ends (dx dy : String) (names : List String) :
    Ends (move dx dy names) b (fun _ b' => Moves b names b') (Complains b) := by
  refine .given_bind (Meaning.number_gives _ _ dx) (fun dx _ _ => ?_) complains
  refine .given_bind (Meaning.number_gives _ _ dy) (fun dy _ _ => ?_) complains
  refine .pins_bind ?_
  exact group_ends _ names fun group _ => shift_ends _ _ _ _

theorem moveOver_ends (base reference : String) (names : List String) :
    Ends (moveOver base reference names) b (fun _ b' => Moves b names b') (Complains b) := by
  refine .pins_bind ?_
  refine .given_bind (Meaning.pin_gives _ _ base) (fun p _ _ => ?_) complains
  refine .pins_bind ?_
  refine .given_bind (Meaning.pin_gives _ _ reference) (fun q _ _ => ?_) complains
  refine .pins_bind ?_
  exact group_ends _ names fun group _ => shift_ends _ _ _ _

/-- A group that is not empty has an extent. -/
theorem extent_gives_of_names {names : List String} {group : List (String × Point)} (hne : names ≠ [])
    (hg : group.map Prod.fst = names.eraseDups) : Gives (Meaning.extent (group.map Prod.snd)) fun _ => True := by
  refine Meaning.extent_gives fun hnil => hne ?_
  rw [List.map_eq_nil_iff.1 hnil] at hg
  cases names with
  | nil => rfl
  | cons name rest => rw [List.eraseDups_cons] at hg; cases hg

theorem moveTo_ends (anchor : Anchor) (base : String) {names : List String} (hne : names ≠ []) :
    Ends (moveTo anchor base names) b (fun _ b' => Moves b names b') (Complains b) := by
  refine .pins_bind ?_
  refine .given_bind (Meaning.pin_gives _ _ base) (fun p _ _ => ?_) complains
  refine .pins_bind ?_
  refine group_ends _ names fun group hg => ?_
  refine .given_bind (extent_gives_of_names hne hg) (fun e _ _ => ?_) complains
  split
  · exact shift_ends _ _ _ _
  · exact shift_ends _ _ _ _

theorem reset_ends {names : List String} (hne : names ≠ []) :
    Ends (reset names) b (fun _ b' => Moves b names b') (Complains b) := by
  refine .pins_bind ?_
  refine group_ends _ names fun group hg => ?_
  refine .given_bind (extent_gives_of_names hne hg) (fun e _ _ => ?_) complains
  exact shift_ends _ _ _ _

theorem translate_ends (x y : String) :
    Ends (translate x y) b (fun _ b' => ∃ p : Point, p.isFinite = true ∧ b' = { b with offset := p })
      (Complains b) := by
  refine .given_bind (Meaning.number_gives _ _ x) (fun x _ hx => ?_) complains
  refine .given_bind (Meaning.number_gives _ _ y) (fun y _ hy => ?_) complains
  exact .change ⟨⟨x, y⟩, (Point.isFinite_iff _).2 ⟨hx, hy⟩, rfl⟩

end Placement
end Pinboard
