import Pinboard.Proofs.Chart.Commuting
import Pinboard.Proofs.Drawing.Identifiers
import Pinboard.Proofs.Numeric.Zeros

/-!
# A group of pins moves as one

The commands that move pins find one way from the table as it is before any pin moves (`Command.way`), and then add it
to every pin of the group (`PinTable.Shifted`). Either all of them move or none does (`Command.group_cases`). Main
statement: `group_rigid`, on any board of a session; it says as well that the names of a group may stand in any order
and any number of times, but for the sign of zeros.
-/

namespace Pinboard

open Work
open Binary64 (Same)

/-! ## Groups and their ways -/

/-- What a command that moves pins is called, and the names of the pins. -/
def Command.group? : Command → Option (String × List String)
  | .move _ _ names => some ("Move", names)
  | .moveTo anchor _ names => some (anchor.title, names)
  | .moveOver _ _ names => some ("MoveOver", names)
  | .reset names => some ("Reset", names)
  | _ => none

/-- The names of the pins that a command measures its way by besides the group. -/
def Command.references : Command → List String
  | .moveTo _ base _ => [base]
  | .moveOver base reference _ => [base, reference]
  | _ => []

/-- A command for another group. -/
def Command.withGroup (names : List String) : Command → Command
  | .move dx dy _ => .move dx dy names
  | .moveTo anchor base _ => .moveTo anchor base names
  | .moveOver base reference _ => .moveOver base reference names
  | .reset _ => .reset names
  | c => c

/-- The way by which a command moves its group, found from a table of pins. -/
def Command.way (pins : PinTable) : Command → Meaning Point
  | .move dx dy _ => do
    let dx ← Meaning.number "Move" "dx" dx
    let dy ← Meaning.number "Move" "dy" dy
    return ⟨dx, dy⟩
  | .moveTo anchor base names => do
    let p ← Meaning.pin pins anchor.title base
    let group ← Meaning.group pins anchor.title names
    let e ← Meaning.extent (group.map Prod.snd)
    return if anchor.isCentre then ⟨p.x - (e.left + e.right) / 2, p.y - (e.top + e.bottom) / 2⟩
      else ⟨p.x - e.left, p.y - e.top⟩
  | .moveOver base reference _ => do
    let p ← Meaning.pin pins "MoveOver" base
    let q ← Meaning.pin pins "MoveOver" reference
    return ⟨p.x - q.x, p.y - q.y⟩
  | .reset names => do
    let group ← Meaning.group pins "Reset" names
    let e ← Meaning.extent (group.map Prod.snd)
    return ⟨-e.left, -e.top⟩
  | _ => return ⟨0, 0⟩

/-- A point further on by a way: one addition to each coordinate. -/
def Point.shifted (p d : Point) : Point := ⟨p.x + d.x, p.y + d.y⟩

/-- The pins of some names have moved by one way, and all others are as they were. -/
structure PinTable.Shifted (t : PinTable) (names : List String) (d : Point) (t' : PinTable) : Prop where
  names_eq : t'.names = t.names
  moved : ∀ name ∈ names, ∃ p, t.point? name = some p ∧ t'.point? name = some (p.shifted d)
  kept : ∀ name, name ∉ names → t'.point? name = t.point? name

variable {t : PinTable} {b b' : Board} {c : Command} {title : String} {names names' : List String} {d : Point}

/-! ## Targets -/

namespace Meaning

/-- What fails for a list fails for one of its elements. -/
theorem exists_of_mapM_error {α β : Type} {k : α → Meaning β} {xs : List α} {f : Fault}
    (h : xs.mapM k = .error f) : ∃ x ∈ xs, k x = .error f := by
  induction xs with
  | nil => cases h
  | cons x xs ih =>
    rw [List.mapM_cons] at h
    cases hx : k x with
    | error f' =>
      rw [hx] at h
      cases h
      exact ⟨x, List.mem_cons_self, hx⟩
    | ok y =>
      cases hxs : xs.mapM k with
      | error f' =>
        rw [hx, hxs] at h
        cases h
        obtain ⟨a, ha, herror⟩ := ih hxs
        exact ⟨a, List.mem_cons_of_mem _ ha, herror⟩
      | ok ys =>
        rw [hx, hxs] at h
        cases h

/-- The pins of a group are those of its names. -/
theorem group_spec {pins : PinTable} {command : String} {g : List (String × Point)}
    (h : group pins command names = .ok g) :
    (∀ name, name ∈ g.map Prod.fst ↔ name ∈ names) ∧ ∀ e ∈ g, pins.point? e.1 = some e.2 := by
  obtain ⟨hnames, hpins⟩ := (group_gives pins command names).ok h
  refine ⟨fun name => ?_, hpins⟩
  rw [hnames, List.mem_eraseDups]

theorem exists_of_group_error {pins : PinTable} {command : String} {f : Fault}
    (h : group pins command names = .error f) : ∃ name ∈ names, pins.point? name = none := by
  obtain ⟨name, hname, herror⟩ := exists_of_mapM_error h
  refine ⟨name, List.mem_eraseDups.1 hname, ?_⟩
  cases hpoint : pins.point? name with
  | none => rfl
  | some p =>
    rw [pin, hpoint] at herror
    cases herror

/-- All targets of a group are finite, or none of them is set. -/
theorem targets_cases (command : String) (group : List (String × Point)) (d : Point) :
    (group.mapM (fun e : String × Point => do return (e.1, ← finitePoint command (e.2.shifted d))) =
          .ok (group.map fun e => (e.1, e.2.shifted d)) ∧
        ∀ e ∈ group, (e.2.shifted d).isFinite = true) ∨
      ∃ f, group.mapM (fun e : String × Point => do return (e.1, ← finitePoint command (e.2.shifted d))) = .error f ∧
        ∃ e ∈ group, (e.2.shifted d).isFinite = false := by
  induction group with
  | nil => exact .inl ⟨rfl, List.forall_mem_nil _⟩
  | cons e group ih =>
    rw [List.mapM_cons, finitePoint]
    by_cases he : (e.2.shifted d).isFinite = true
    · rw [if_pos he]
      rcases ih with ⟨hok, hfinite⟩ | ⟨f, herror, e', he', hnot⟩
      · rw [hok, List.map_cons]
        exact .inl ⟨by simp only [bind, Except.bind, pure, Except.pure], List.forall_mem_cons.2 ⟨he, hfinite⟩⟩
      · rw [herror]
        exact .inr ⟨f, rfl, e', List.mem_cons_of_mem _ he', hnot⟩
    · rw [if_neg he]
      exact .inr ⟨_, rfl, e, List.mem_cons_self, Bool.eq_false_iff.2 he⟩

end Meaning

namespace PinTable

variable {pins : List (String × Point)} {name : String} {p : Point}

theorem point?_setAll_of_mem (t : PinTable) (hmem : name ∈ pins.map Prod.fst)
    (hpoint : ∀ e ∈ pins, e.1 = name → e.2 = p) : (t.setAll pins).point? name = some p := by
  induction pins generalizing t with
  | nil => cases hmem
  | cons pin pins ih =>
    obtain ⟨hfirst, hrest⟩ := List.forall_mem_cons.1 hpoint
    rw [setAll_cons]
    by_cases hlater : name ∈ pins.map Prod.fst
    · exact ih _ hlater hrest
    · have hname : name = pin.1 := (List.mem_cons.1 hmem).resolve_right hlater
      rw [point?_setAll _ hlater, point?_set, if_pos hname, hfirst hname.symm]

theorem names_setAll (h : ∀ name ∈ pins.map Prod.fst, name ∈ t.names) : (t.setAll pins).names = t.names := by
  induction pins generalizing t with
  | nil => rfl
  | cons pin pins ih =>
    obtain ⟨hpin, hrest⟩ := List.forall_mem_cons.1 h
    have hset : (t.set pin.1 pin.2).names = t.names := by rw [names_set, if_pos hpin]
    rw [setAll_cons, ih (by rwa [hset]), hset]

/-- Setting all pins of a group at their targets. -/
theorem shifted_setAll {group : List (String × Point)} (hnames : ∀ name, name ∈ group.map Prod.fst ↔ name ∈ names)
    (hpins : ∀ e ∈ group, t.point? e.1 = some e.2) (d : Point) :
    t.Shifted names d (t.setAll (group.map fun e => (e.1, e.2.shifted d))) := by
  have hkeys : (group.map fun e => (e.1, e.2.shifted d)).map Prod.fst = group.map Prod.fst := by
    simp [Function.comp_def]
  refine ⟨names_setAll ?_, ?_, ?_⟩
  · intro name hname
    rw [hkeys] at hname
    obtain ⟨e, he, rfl⟩ := List.mem_map.1 hname
    rw [mem_names_iff, hpins e he]
    rfl
  · intro name hname
    have hmem := (hnames name).2 hname
    obtain ⟨e, he, rfl⟩ := List.mem_map.1 hmem
    refine ⟨e.2, hpins e he, point?_setAll_of_mem t (hkeys ▸ hmem) ?_⟩
    intro target htarget hkey
    obtain ⟨e', he', rfl⟩ := List.mem_map.1 htarget
    have hpoint : some e'.2 = some e.2 := by rw [← hpins e' he', ← hpins e he, ← hkey]
    rw [Option.some.inj hpoint]
  · intro name hname
    refine point?_setAll t ?_
    rwa [hkeys, hnames]

end PinTable

/-! ## One command -/

namespace Work

variable {α β : Type}

theorem of_bind (m : Except Fault α) (k : α → Except Fault β) : of (m >>= k) = of m >>= fun a => of (k a) := by
  cases m <;> rfl

theorem of_pure (a : α) : of (pure a : Except Fault α) = pure a := rfl

/-- All pins of a group are set at their targets, or one of the targets is not finite and nothing changes. -/
theorem shift_cases (command : String) (group : List (String × Point)) (d : Point) (b : Board) :
    (shift command group d.x d.y b =
          .ok () { b with pins := b.pins.setAll (group.map fun e => (e.1, e.2.shifted d)) } ∧
        ∀ e ∈ group, (e.2.shifted d).isFinite = true) ∨
      ∃ f, shift command group d.x d.y b = .error f b ∧ ∃ e ∈ group, (e.2.shifted d).isFinite = false := by
  have hshift : shift command group d.x d.y =
      of (group.mapM fun e : String × Point => do return (e.1, ← Meaning.finitePoint command (e.2.shifted d))) >>=
        setPins := rfl
  rcases Meaning.targets_cases command group d with ⟨hok, hfinite⟩ | ⟨f, herror, hnot⟩
  · rw [hshift, hok]
    exact .inl ⟨rfl, hfinite⟩
  · rw [hshift, herror]
    exact .inr ⟨f, rfl, hnot⟩

end Work

/-- A command that moves pins finds its way, then its group, and then the targets. -/
theorem Command.run_group (hgroup : c.group? = some (title, names)) (b : Board) :
    c.run b = (do
      let d ← of (c.way b.pins)
      let group ← of (Meaning.group b.pins title names)
      shift title group d.x d.y
      return ([] : Fragment) : Work Fragment) b := by
  cases c with
  | move dx dy group =>
    cases hgroup
    simp only [run, Placement.move, way, of_bind, of_pure, bind_assoc, pure_bind]
    refine of_bind_congr fun dx _ => of_bind_congr fun dy _ => ?_
    rfl
  | moveOver base reference group =>
    cases hgroup
    simp only [run, Placement.moveOver, way, of_bind, of_pure, bind_assoc, pure_bind]
    show (of (Meaning.pin b.pins "MoveOver" base) >>= _) b = _
    refine of_bind_congr fun p _ => ?_
    show (of (Meaning.pin b.pins "MoveOver" reference) >>= _) b = _
    refine of_bind_congr fun q _ => ?_
    rfl
  | reset group =>
    cases hgroup
    simp only [run, Placement.reset, way, of_bind, of_pure, bind_assoc, pure_bind]
    show (of (Meaning.group b.pins "Reset" names) >>= _) b = _
    refine of_bind_congr fun group hg => of_bind_congr fun e _ => ?_
    rw [hg]
    rfl
  | moveTo anchor base group =>
    cases hgroup
    simp only [run, Placement.moveTo, way, of_bind, of_pure, bind_assoc, pure_bind]
    show (of (Meaning.pin b.pins anchor.title base) >>= _) b = _
    refine of_bind_congr fun p _ => ?_
    show (of (Meaning.group b.pins anchor.title names) >>= _) b = _
    refine of_bind_congr fun group hg => of_bind_congr fun e _ => ?_
    rw [hg]
    split <;> rfl
  | _ => cases hgroup

/-- If a command has a way, the pins that it measures it by are there. -/
theorem Command.exists_of_references (hway : c.way t = .ok d) : ∀ name ∈ c.references, ∃ p, t.point? name = some p := by
  have hpin {command name : String} {p : Point} (h : Meaning.pin t command name = .ok p) : t.point? name = some p :=
    (Meaning.pin_gives t command name).ok h
  cases c with
  | moveTo anchor base group =>
    obtain ⟨p, hbase, -⟩ := exists_of_except_bind_ok hway
    exact List.forall_mem_singleton.2 ⟨p, hpin hbase⟩
  | moveOver base reference group =>
    obtain ⟨p, hbase, hrest⟩ := exists_of_except_bind_ok hway
    obtain ⟨q, hreference, -⟩ := exists_of_except_bind_ok hrest
    exact List.forall_mem_cons.2 ⟨⟨p, hpin hbase⟩, List.forall_mem_singleton.2 ⟨q, hpin hreference⟩⟩
  | _ => exact List.forall_mem_nil _

/-- What keeps a command from moving its group: there is no way, or a pin of the group is not there or has no finite
target. -/
def Command.IsStuck (c : Command) (names : List String) (t : PinTable) : Prop :=
  (∃ f, c.way t = .error f) ∨ (∃ name ∈ names, t.point? name = none) ∨
    ∃ d, c.way t = .ok d ∧ ∃ name ∈ names, ∃ p, t.point? name = some p ∧ (p.shifted d).isFinite = false

/-- Either all pins of a group move by one way, or the command is stuck and nothing changes. -/
theorem Command.group_cases (hgroup : c.group? = some (title, names)) (b : Board) :
    (∃ d pins', c.way b.pins = .ok d ∧ b.pins.Shifted names d pins' ∧
        c.run b = .ok ([] : Fragment) { b with pins := pins' } ∧ ¬c.IsStuck names b.pins) ∨
      ∃ f, c.run b = .error f b ∧ c.IsStuck names b.pins := by
  cases hway : c.way b.pins with
  | error f =>
    refine .inr ⟨f, ?_, .inl ⟨f, hway⟩⟩
    rw [run_group hgroup, hway]
    rfl
  | ok d =>
    cases hg : Meaning.group b.pins title names with
    | error f =>
      refine .inr ⟨f, ?_, .inr (.inl (Meaning.exists_of_group_error hg))⟩
      rw [run_group hgroup, hway]
      show (of (Meaning.group b.pins title names) >>= _) b = _
      rw [hg]
      rfl
    | ok g =>
      obtain ⟨hnames, hpins⟩ := Meaning.group_spec hg
      have hrun : c.run b = (shift title g d.x d.y >>= fun _ => pure ([] : Fragment)) b := by
        rw [run_group hgroup, hway]
        show (of (Meaning.group b.pins title names) >>= _) b = _
        rw [hg]
        rfl
      rw [hrun]
      rcases shift_cases title g d b with ⟨hok, hfinite⟩ | ⟨f, herror, e, he, hnot⟩
      · refine .inl ⟨d, _, rfl, PinTable.shifted_setAll hnames hpins d, bind_of_ok hok, ?_⟩
        have hfound : ∀ name ∈ names, ∃ e ∈ g, e.1 = name := fun name hname =>
          List.mem_map.1 ((hnames name).2 hname)
        rintro (⟨f, herror⟩ | ⟨name, hname, hnone⟩ | ⟨d', hd', name, hname, p, hp, hnot⟩)
        · rw [hway] at herror
          cases herror
        · obtain ⟨e, he, rfl⟩ := hfound name hname
          rw [hpins e he] at hnone
          cases hnone
        · obtain ⟨e, he, rfl⟩ := hfound name hname
          rw [hway] at hd'
          rw [hpins e he] at hp
          cases hd'
          cases hp
          rw [hfinite e he] at hnot
          cases hnot
      · refine .inr ⟨f, bind_of_error herror, .inr (.inr ⟨d, hway, e.1, ?_, e.2, hpins e he, hnot⟩)⟩
        exact (hnames e.1).1 (List.mem_map_of_mem he)

/-! ## The same group in another order -/

/-- Two points with equal coordinates. -/
def Point.equal (p q : Point) : Bool := p.x.equal q.x && p.y.equal q.y

/-- Two tables with the same names in which every pin has equal coordinates. -/
structure PinTable.SameNumbers (t t' : PinTable) : Prop where
  names_eq : t'.names = t.names
  points : ∀ name, Option.Rel (fun p q => Point.equal p q = true) (t.point? name) (t'.point? name)

/-- Two points whose coordinates are the same but for the sign of zeros. -/
structure Point.Same (p q : Point) : Prop where
  x : Binary64.Same p.x q.x
  y : Binary64.Same p.y q.y

namespace Point.Same

variable {p q : Point}

theorem refl (p : Point) : p.Same p := ⟨.refl _, .refl _⟩

theorem isFinite_eq (h : p.Same q) : p.isFinite = q.isFinite := by
  rw [Point.isFinite, Point.isFinite, h.x.isFinite_eq, h.y.isFinite_eq]

theorem equal (h : p.Same q) (hp : p.isFinite = true) : p.equal q = true := by
  obtain ⟨hx, hy⟩ := (Point.isFinite_iff p).1 hp
  rw [Point.equal, h.x.equal hx, h.y.equal hy]
  rfl

theorem shifted (p : Point) {d d' : Point} (h : d.Same d') : (p.shifted d).Same (p.shifted d') :=
  ⟨.add (.refl _) h.x, .add (.refl _) h.y⟩

end Point.Same

namespace Meaning

/-- The extent of some points is the same in another order and with repetitions. -/
theorem extent_same {ps qs : List Point} {e : Bounds} (hfinite : ∀ p ∈ ps, p.isFinite = true)
    (h : ∀ p, p ∈ ps ↔ p ∈ qs) (he : extent ps = .ok e) :
    ∃ e', extent qs = .ok e' ∧ Same e.left e'.left ∧ Same e.top e'.top ∧ Same e.right e'.right ∧
      Same e.bottom e'.bottom := by
  cases ps with
  | nil => cases he
  | cons p ps =>
    cases qs with
    | nil => exact absurd ((h p).1 List.mem_cons_self) List.not_mem_nil
    | cons q qs =>
      cases he
      have hx : ∀ r ∈ p :: ps, r.x.isFinite = true := fun r hr => ((Point.isFinite_iff r).1 (hfinite r hr)).1
      have hy : ∀ r ∈ p :: ps, r.y.isFinite = true := fun r hr => ((Point.isFinite_iff r).1 (hfinite r hr)).2
      exact ⟨_, rfl, Binary64.same_foldl (·.x) Binary64.exact_min Binary64.foldl_min_congr hx h,
        Binary64.same_foldl (·.y) Binary64.exact_min Binary64.foldl_min_congr hy h,
        Binary64.same_foldl (·.x) Binary64.exact_max Binary64.foldl_max_congr hx h,
        Binary64.same_foldl (·.y) Binary64.exact_max Binary64.foldl_max_congr hy h⟩

/-- The points of a group are those of its names. -/
theorem mem_points_iff {g : List (String × Point)} (hnames : ∀ name, name ∈ g.map Prod.fst ↔ name ∈ names)
    (hpins : ∀ e ∈ g, t.point? e.1 = some e.2) (p : Point) :
    p ∈ g.map Prod.snd ↔ ∃ name ∈ names, t.point? name = some p := by
  constructor
  · intro hp
    obtain ⟨e, he, rfl⟩ := List.mem_map.1 hp
    exact ⟨e.1, (hnames e.1).1 (List.mem_map_of_mem he), hpins e he⟩
  · rintro ⟨name, hname, hp⟩
    obtain ⟨e, he, rfl⟩ := List.mem_map.1 ((hnames name).2 hname)
    rw [hpins e he, Option.some.injEq] at hp
    exact hp ▸ List.mem_map_of_mem he

/-- A group has the same extent if its names stand in another order or are repeated. -/
theorem groupExtent_same (ht : t.IsFinite) (h : ∀ name, name ∈ names' ↔ name ∈ names) {command : String}
    {g : List (String × Point)} {e : Bounds} (hg : group t command names = .ok g)
    (he : extent (g.map Prod.snd) = .ok e) :
    ∃ g' e', group t command names' = .ok g' ∧ extent (g'.map Prod.snd) = .ok e' ∧ Same e.left e'.left ∧
      Same e.top e'.top ∧ Same e.right e'.right ∧ Same e.bottom e'.bottom := by
  obtain ⟨hnames, hpins⟩ := group_spec hg
  cases hg' : group t command names' with
  | error f =>
    obtain ⟨name, hname, hnone⟩ := exists_of_group_error hg'
    obtain ⟨entry, hentry, rfl⟩ := List.mem_map.1 ((hnames name).2 ((h name).1 hname))
    rw [hpins entry hentry] at hnone
    cases hnone
  | ok g' =>
    obtain ⟨hnames', hpins'⟩ := group_spec hg'
    have hfinite : ∀ p ∈ g.map Prod.snd, p.isFinite = true := by
      intro p hp
      obtain ⟨name, -, hpoint⟩ := (mem_points_iff hnames hpins p).1 hp
      exact ht.point hpoint
    have hpoints : ∀ p, p ∈ g.map Prod.snd ↔ p ∈ g'.map Prod.snd := by
      intro p
      rw [mem_points_iff hnames hpins, mem_points_iff hnames' hpins']
      simp only [h]
    obtain ⟨e', he', hsame⟩ := extent_same hfinite hpoints he
    exact ⟨g', e', rfl, he', hsame⟩

end Meaning

/-- A command with another group of the same pins has the same way. -/
theorem Command.way_withGroup (ht : t.IsFinite) (hgroup : c.group? = some (title, names))
    (h : ∀ name, name ∈ names' ↔ name ∈ names) (hway : c.way t = .ok d) :
    ∃ d', (c.withGroup names').way t = .ok d' ∧ d.Same d' := by
  cases c with
  | move dx dy group => exact ⟨d, hway, .refl d⟩
  | moveOver base reference group => exact ⟨d, hway, .refl d⟩
  | moveTo anchor base group =>
    cases hgroup
    obtain ⟨p, hp, hrest⟩ := exists_of_except_bind_ok hway
    obtain ⟨g, hg, hrest⟩ := exists_of_except_bind_ok hrest
    obtain ⟨e, he, hd⟩ := exists_of_except_bind_ok hrest
    obtain ⟨g', e', hg', he', hleft, htop, hright, hbottom⟩ := Meaning.groupExtent_same ht h hg he
    cases hd
    rw [withGroup, way, hp]
    show ∃ d', (Meaning.group t anchor.title names' >>= _) = _ ∧ _
    rw [hg']
    show ∃ d', (Meaning.extent (g'.map Prod.snd) >>= _) = _ ∧ _
    rw [he']
    refine ⟨_, rfl, ?_⟩
    split
    · exact ⟨.sub (.refl _) (.half (.add hleft hright)), .sub (.refl _) (.half (.add htop hbottom))⟩
    · exact ⟨.sub (.refl _) hleft, .sub (.refl _) htop⟩
  | reset group =>
    cases hgroup
    obtain ⟨g, hg, hrest⟩ := exists_of_except_bind_ok hway
    obtain ⟨e, he, hd⟩ := exists_of_except_bind_ok hrest
    obtain ⟨g', e', hg', he', hleft, htop, -⟩ := Meaning.groupExtent_same ht h hg he
    cases hd
    rw [withGroup, way, hg']
    show ∃ d', (Meaning.extent (g'.map Prod.snd) >>= _) = _ ∧ _
    rw [he']
    exact ⟨_, rfl, hleft.neg, htop.neg⟩
  | _ => cases hgroup

theorem PinTable.SameNumbers.refl (ht : t.IsFinite) : t.SameNumbers t := by
  refine ⟨rfl, fun name => ?_⟩
  cases hp : t.point? name with
  | none => exact .none
  | some p => exact .some ((Point.Same.refl p).equal (ht.point hp))

/-- Two ways that are the same lead to tables with the same numbers. -/
theorem PinTable.Shifted.sameNumbers {t₁ t₂ : PinTable} {d₁ d₂ : Point} (ht : t.IsFinite) (ht₁ : t₁.IsFinite)
    (h₁ : t.Shifted names d₁ t₁) (h₂ : t.Shifted names' d₂ t₂) (hnames : ∀ name, name ∈ names' ↔ name ∈ names)
    (hd : d₁.Same d₂) : t₁.SameNumbers t₂ := by
  refine ⟨h₂.names_eq.trans h₁.names_eq.symm, fun name => ?_⟩
  by_cases hname : name ∈ names
  · obtain ⟨p, hp, hp₁⟩ := h₁.moved name hname
    obtain ⟨q, hq, hq₂⟩ := h₂.moved name ((hnames name).2 hname)
    cases hp.symm.trans hq
    rw [hp₁, hq₂]
    exact .some ((Point.Same.shifted p hd).equal (ht₁.point hp₁))
  · rw [h₁.kept name hname, h₂.kept name (mt (hnames name).1 hname)]
    exact (SameNumbers.refl ht).points name

/-! ## Lines -/

section
variable {number : Nat} {line : String}

/-- What a line with a command for a group comes to. -/
theorem executeAt_group (hc : Command.ofLine line = .ok c) (hgroup : c.group? = some (title, names)) (b : Board)
    (number : Nat) :
    (∃ d pins', c.way b.pins = .ok d ∧ b.pins.Shifted names d pins' ∧
        executeAt number line b = .ok [] { b.onLine number with pins := pins' } ∧ ¬c.IsStuck names b.pins) ∨
      ∃ f, executeAt number line b = .error f (b.onLine number) ∧ c.IsStuck names b.pins := by
  have hrun : executeAt number line b = c.run (b.onLine number) := by
    rw [executeAt_eq, execute, hc]
    rfl
  rw [hrun]
  exact c.group_cases hgroup (b.onLine number)

/-- What a line shall do that moves the pins of some names on a board. -/
structure Board.MovesRigidly (b : Board) (number : Nat) (line : String) (c : Command) (names : List String) : Prop where
  /-- There is one way for all pins of the group, found from the table as it was, and no other pin moves. -/
  moved : ∀ fragment b', executeAt number line b = .ok fragment b' →
    ∃ d, c.way b.pins = .ok d ∧ b.pins.Shifted names d b'.pins
  /-- A name that is not defined, or a target that is not finite, is refused. -/
  refused : ((∃ name ∈ c.references ++ names, b.pins.point? name = none) ∨
      ∃ d, c.way b.pins = .ok d ∧ ∃ name ∈ names, ∃ p, b.pins.point? name = some p ∧ (p.shifted d).isFinite = false) →
    ∃ fault b', executeAt number line b = .error fault b'
  /-- Where the line fails no pin moves. -/
  unmoved : ∀ fault b', executeAt number line b = .error fault b' → b'.pins = b.pins
  /-- The names of the group may stand in another order and be repeated. -/
  reordered : ∀ number' line' names', Command.ofLine line' = .ok (c.withGroup names') →
    (∀ name, name ∈ names' ↔ name ∈ names) →
      (resultOn b (number', line')).isOk = (resultOn b (number, line)).isOk ∧
        (b.after (number, line)).pins.SameNumbers (b.after (number', line')).pins

theorem Command.group?_withGroup (hgroup : c.group? = some (title, names)) (names' : List String) :
    (c.withGroup names').group? = some (title, names') := by
  cases c <;> cases hgroup <;> rfl

theorem Command.withGroup_withGroup (hgroup : c.group? = some (title, names)) (names' : List String) :
    (c.withGroup names').withGroup names = c := by
  cases c <;> cases hgroup <;> rfl

/-- A command is not stuck with the same group in another order. -/
theorem Command.not_isStuck_withGroup (ht : t.IsFinite) (hgroup : c.group? = some (title, names))
    (h : ∀ name, name ∈ names' ↔ name ∈ names) (hstuck : ¬c.IsStuck names t) :
    ¬(c.withGroup names').IsStuck names' t := by
  cases hway : c.way t with
  | error f => exact absurd (.inl ⟨f, hway⟩) hstuck
  | ok d =>
    obtain ⟨d', hway', hd⟩ := way_withGroup ht hgroup h hway
    rintro (⟨f, herror⟩ | ⟨name, hname, hnone⟩ | ⟨d'', hd'', name, hname, p, hp, hnot⟩)
    · rw [hway'] at herror
      cases herror
    · exact hstuck (.inr (.inl ⟨name, (h name).1 hname, hnone⟩))
    · rw [hway'] at hd''
      cases hd''
      rw [← (Point.Same.shifted p hd).isFinite_eq] at hnot
      exact hstuck (.inr (.inr ⟨d, hway, name, (h name).1 hname, p, hp, hnot⟩))

/-- A line moves its group as one on all boards of a session, and the order of the names does not matter but for
the sign of zeros. -/
theorem group_rigid (lines : List (Nat × String)) (number : Nat) (hc : Command.ofLine line = .ok c)
    (hgroup : c.group? = some (title, names)) : (Board.session lines).MovesRigidly number line c names := by
  have hb := Board.session_isFinite lines
  generalize Board.session lines = b at hb
  have hline := executeAt_group hc hgroup b number
  refine ⟨?_, ?_, ?_, ?_⟩
  · intro fragment b' h
    rcases hline with ⟨d, pins', hway, hshifted, hok, -⟩ | ⟨f, herror, -⟩
    · cases hok.symm.trans h
      exact ⟨d, hway, hshifted⟩
    · cases herror.symm.trans h
  · intro hcause
    rcases hline with ⟨d, pins', hway, -, -, hfree⟩ | ⟨f, herror, -⟩
    · refine absurd ?_ hfree
      rcases hcause with ⟨name, hname, hnone⟩ | hnot
      · rcases List.mem_append.1 hname with hname | hname
        · obtain ⟨p, hp⟩ := Command.exists_of_references hway name hname
          rw [hp] at hnone
          cases hnone
        · exact .inr (.inl ⟨name, hname, hnone⟩)
      · exact .inr (.inr hnot)
    · exact ⟨f, _, herror⟩
  · intro fault b' h
    rcases hline with ⟨d, pins', -, -, hok, -⟩ | ⟨f, herror, -⟩
    · cases hok.symm.trans h
    · cases herror.symm.trans h
      rfl
  · intro number' line' names' hc' hnames
    have hgroup' := Command.group?_withGroup hgroup names'
    have hline' := executeAt_group hc' hgroup' b number'
    unfold resultOn Board.after
    rcases hline with ⟨d, pins', hway, hshifted, hok, hfree⟩ | ⟨f, herror, hstuck⟩
    · rcases hline' with ⟨d', pins'', hway', hshifted', hok', -⟩ | ⟨f', -, hstuck'⟩
      · obtain ⟨d'', hd'', hsame⟩ := Command.way_withGroup hb.pins hgroup hnames hway
        cases hway'.symm.trans hd''
        have hfinite := (Board.executeAt_ends hb number line).ok hok
        rw [hok, hok']
        exact ⟨rfl, hshifted.sameNumbers hb.pins hfinite.finite.pins hshifted' hnames hsame⟩
      · exact absurd hstuck' (Command.not_isStuck_withGroup hb.pins hgroup hnames hfree)
    · rcases hline' with ⟨d', pins'', -, -, -, hfree'⟩ | ⟨f', herror', -⟩
      · have hback := Command.not_isStuck_withGroup hb.pins hgroup' (fun name => (hnames name).symm) hfree'
        rw [Command.withGroup_withGroup hgroup] at hback
        exact absurd hstuck hback
      · rw [herror, herror']
        exact ⟨rfl, .refl hb.pins⟩

end

/-- A group that is moved to one of its own pins, with a name that is repeated. -/
theorem group_rigid_own_base :
    (Board.session [(1, "Pin a 1 2"), (2, "Pin b 5 -1"), (3, "Pin c 0.1 7")]).MovesRigidly 4 "MoveTo a b a b"
        (.moveTo .topLeft "a" ["b", "a", "b"]) ["b", "a", "b"] ∧
      ((Board.session [(1, "Pin a 1 2"), (2, "Pin b 5 -1"), (3, "Pin c 0.1 7")]).after (4, "MoveTo a b a b")).pins.entries =
        [("a", ⟨1, 5⟩), ("b", ⟨5, 2⟩), ("c", ⟨0.1, 7⟩)] := by
  have hline : Command.ofLine "MoveTo a b a b" = .ok (.moveTo .topLeft "a" ["b", "a", "b"]) := by decide +kernel
  have hgroup : Command.group? (.moveTo .topLeft "a" ["b", "a", "b"]) = some ("MoveTo", ["b", "a", "b"]) := rfl
  exact ⟨group_rigid _ 4 hline hgroup, by decide +kernel⟩

end Pinboard
