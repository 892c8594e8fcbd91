import Mathlib.Data.List.Forall2
import Pinboard.Proofs.Chart.Contract
import Pinboard.Proofs.Drawing.Finite

/-!
# What the words of a command come to

Every look-up has a result that is fit for use, or it complains (`Gives`): numbers are finite, a group has
the pins of its names, and the rectangle between two corners has finite edges, in order, that are a finite
distance apart (`Bounds.IsSound`). The count of columns is the only word with another way to fail.
-/

namespace Pinboard

/-- A result for which something holds, or a complaint. -/
inductive Gives {α : Type} : Meaning α → (α → Prop) → Prop
  | of_ok {a : α} {good : α → Prop} (h : good a) : Gives (.ok a) good
  | complain {good : α → Prop} (c : Complaint) : Gives (Meaning.complain c) good

namespace Gives

variable {α β : Type} {m : Meaning α} {k : α → Meaning β} {P : α → Prop} {Q : β → Prop}

theorem ok {a : α} (h : Gives m P) (hm : m = .ok a) : P a := by
  cases h with
  | of_ok h => cases hm; exact h
  | complain c => cases hm

theorem error {f : Fault} (h : Gives m P) (hm : m = .error f) : f.IsComplaint := by
  cases h with
  | of_ok h => cases hm
  | complain c => cases hm; exact ⟨c, rfl⟩

theorem bind (h : Gives m P) (hk : ∀ a, m = .ok a → P a → Gives (k a) Q) : Gives (m >>= k) Q := by
  cases h with
  | of_ok h => exact hk _ rfl h
  | complain c => exact .complain c

theorem mono {Q : α → Prop} (h : Gives m P) (hpq : ∀ a, P a → Q a) : Gives m Q := by
  cases h with
  | of_ok h => exact .of_ok (hpq _ h)
  | complain c => exact .complain c

theorem mapM {P : α → β → Prop} (l : List α) (h : ∀ x ∈ l, Gives (k x) (P x)) :
    Gives (l.mapM k) fun ys => List.Forall₂ P l ys := by
  induction l with
  | nil => exact .of_ok .nil
  | cons x xs ih =>
    obtain ⟨hx, hxs⟩ := List.forall_mem_cons.1 h
    rw [List.mapM_cons]
    refine hx.bind fun y _ hy => (ih hxs).bind fun ys _ hys => ?_
    exact .of_ok (.cons hy hys)

end Gives

/-- The look-up as a step of a computation on the board. -/
theorem Ends.given_bind {α β : Type} {m : Meaning α} {k : α → Work β} {b : Board} {P : α → Prop}
    {good : β → Board → Prop} {bad : Fault → Board → Prop} (h : Gives m P)
    (hk : ∀ a, m = .ok a → P a → Ends (k a) b good bad) (hbad : ∀ f, f.IsComplaint → bad f b) :
    Ends (Work.of m >>= k) b good bad :=
  .of_bind (fun a ha => hk a ha (h.ok ha)) fun f hf => hbad f (h.error hf)

/-- A rectangle with finite edges in order, whose width and height are finite as well. -/
structure Bounds.IsSound (b : Bounds) : Prop where
  left : b.left.isFinite = true
  top : b.top.isFinite = true
  right : b.right.isFinite = true
  bottom : b.bottom.isFinite = true
  width : (b.right - b.left).isFinite = true
  height : (b.bottom - b.top).isFinite = true
  horizontal : b.left.exact ≤ b.right.exact
  vertical : b.top.exact ≤ b.bottom.exact

namespace Meaning

variable (pins : PinTable) (command : String)

theorem number_gives (what word : String) : Gives (number command what word) fun x => x.isFinite = true := by
  rw [number]
  cases Text.Numeral.read? word with
  | none => exact .complain _
  | some numeral =>
    show Gives (if numeral.value.isFinite = true then _ else _) _
    generalize numeral.value = x
    split
    next h => exact .of_ok h
    next => exact .complain _

theorem side_gives (word : String) : Gives (side command word) fun _ => True := by
  rw [side]
  split
  · exact .of_ok trivial
  · exact .complain _

theorem pin_gives (name : String) : Gives (pin pins command name) fun p => pins.point? name = some p := by
  rw [pin]
  split
  next h => exact .of_ok h
  next => exact .complain _

theorem pin_of_point {name : String} {p : Point} (h : pins.point? name = some p) : pin pins command name = .ok p := by
  rw [pin, h]

theorem finitePoint_gives (p : Point) : Gives (finitePoint command p) fun q => q = p ∧ p.isFinite = true := by
  rw [finitePoint]
  split
  next h => exact .of_ok ⟨rfl, h⟩
  next => exact .complain _

/-- The pins of a group are those of its names, each once. -/
theorem group_gives (names : List String) :
    Gives (group pins command names) fun g =>
      g.map Prod.fst = names.eraseDups ∧ ∀ e ∈ g, pins.point? e.1 = some e.2 := by
  have h := Gives.mapM (k := fun name => do return (name, ← pin pins command name))
    (P := fun name (e : String × Point) => e.1 = name ∧ pins.point? e.1 = some e.2) names.eraseDups
    fun name _ => (pin_gives pins command name).bind fun p _ hp => .of_ok ⟨rfl, hp⟩
  refine h.mono fun g hg => ?_
  generalize names.eraseDups = each at hg
  induction hg with
  | nil => simp
  | cons he _ ih =>
    obtain ⟨hmap, hall⟩ := ih
    refine ⟨by rw [List.map_cons, he.1, hmap], List.forall_mem_cons.2 ⟨he.2, hall⟩⟩

theorem extent_gives {points : List Point} (hne : points ≠ []) : Gives (extent points) fun _ => True := by
  cases points with
  | nil => exact absurd rfl hne
  | cons p ps => exact .of_ok trivial

/-- Two pins span a sound rectangle, or it is too large. -/
theorem corners_gives {pins : PinTable} (hpins : pins.IsFinite) (first second : String) :
    Gives (corners pins command first second) Bounds.IsSound := by
  rw [corners]
  refine (pin_gives pins command first).bind fun a _ ha => ?_
  refine (pin_gives pins command second).bind fun b _ hb => ?_
  obtain ⟨hax, hay⟩ := (Point.isFinite_iff a).1 (hpins.point ha)
  obtain ⟨hbx, hby⟩ := (Point.isFinite_iff b).1 (hpins.point hb)
  obtain ⟨hleft, hl⟩ := Binary64.exact_min hax hbx
  obtain ⟨hright, hr⟩ := Binary64.exact_max hax hbx
  obtain ⟨htop, ht⟩ := Binary64.exact_min hay hby
  obtain ⟨hbottom, hm⟩ := Binary64.exact_max hay hby
  have hx : (min a.x b.x).exact ≤ (max a.x b.x).exact := by omega
  have hy : (min a.y b.y).exact ≤ (max a.y b.y).exact := by omega
  show Gives (if (max a.x b.x - min a.x b.x).isFinite && (max a.y b.y - min a.y b.y).isFinite then _ else _) _
  by_cases h : ((max a.x b.x - min a.x b.x).isFinite && (max a.y b.y - min a.y b.y).isFinite) = true
  · obtain ⟨hwidth, hheight⟩ := Bool.and_eq_true_iff.1 h
    rw [if_pos h]
    exact .of_ok ⟨hleft, htop, hright, hbottom, hwidth, hheight, hx, hy⟩
  · rw [if_neg h]
    exact .complain _

end Meaning
end Pinboard
