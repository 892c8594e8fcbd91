import Pinboard.Chart.Placement
import Pinboard.Proofs.Chart.Pins
import Pinboard.Proofs.Numeric.Exact

/-!
# What a computation on the board comes to

`Ends w b good bad` says that the computation `w`, begun at the board `b`, has a result and a board for
which `good` holds, or fails and leaves a board for which `bad` holds. There is one rule for each way of
putting a computation together (`Ends.bind`, `Ends.of_bind`, ...), so that the contract of a command is
proved along its text. What commands change is `Board.extend`: pins that are set, and labels.
-/

namespace Pinboard

/-- A fault that is about what a line says. -/
def Fault.IsComplaint (f : Fault) : Prop := ∃ c, f = .complaint c

/-! ## Contracts -/

/-- What holds of the outcome of a computation begun at a board. -/
structure Ends {α : Type} (w : Work α) (b : Board) (good : α → Board → Prop) (bad : Fault → Board → Prop) : Prop where
  outcome :
    match w b with
    | .ok a b' => good a b'
    | .error f b' => bad f b'

namespace Work

variable {α β : Type} {w : Work α} {k : α → Work β} {b b' : Board}

theorem bind_of_ok {a : α} (h : w b = .ok a b') : (w >>= k) b = k a b' := by
  show EStateM.bind w k b = _
  rw [EStateM.bind, h]

theorem bind_of_error {f : Fault} (h : w b = .error f b') : (w >>= k) b = .error f b' := by
  show EStateM.bind w k b = _
  rw [EStateM.bind, h]

/-- What has a result has done its first part and then the rest. -/
theorem exists_of_bind_ok {r : β} (h : (w >>= k) b = .ok r b') : ∃ a b₁, w b = .ok a b₁ ∧ k a b₁ = .ok r b' := by
  cases hw : w b with
  | ok a b₁ =>
    rw [bind_of_ok hw] at h
    exact ⟨a, b₁, rfl, h⟩
  | error f b₁ =>
    rw [bind_of_error hw] at h
    cases h

theorem of_bind_ok {m : Except Fault α} {r : β} (h : (of m >>= k) b = .ok r b') :
    ∃ a, m = .ok a ∧ k a b = .ok r b' := by
  cases m with
  | ok a => exact ⟨a, rfl, h⟩
  | error f => cases h

theorem of_bind_congr {m : Except Fault α} {k k' : α → Work β} (h : ∀ a, m = .ok a → k a b = k' a b) :
    (of m >>= k) b = (of m >>= k') b := by
  cases m with
  | ok a => exact h a rfl
  | error f => rfl

theorem ofComputed_bind_ok {c : Computed α} {r : β} (h : (ofComputed c >>= k) b = .ok r b') :
    ∃ a, c = .ok a ∧ k a b = .ok r b' := by
  cases c with
  | ok a => exact ⟨a, rfl, h⟩
  | error e => cases h

end Work

namespace Ends

variable {α β : Type} {w : Work α} {k : α → Work β} {b b' : Board} {m : Except Fault α} {c : Computed α}
  {good : β → Board → Prop} {bad : Fault → Board → Prop} {mid : α → Board → Prop}

theorem ok {a : β} {w : Work β} (h : Ends w b good bad) (hw : w b = .ok a b') : good a b' := by
  have h := h.outcome
  rw [hw] at h
  exact h

theorem error {f : Fault} {w : Work β} (h : Ends w b good bad) (hw : w b = .error f b') : bad f b' := by
  have h := h.outcome
  rw [hw] at h
  exact h

theorem exists_ok {w : Work β} (h : Ends w b good fun _ _ => False) : ∃ a b', w b = .ok a b' := by
  cases hw : w b with
  | ok a b' => exact ⟨a, b', rfl⟩
  | error f b' => exact (h.error hw).elim

theorem pure {a : β} (h : good a b) : Ends (Pure.pure a) b good bad := ⟨h⟩

theorem throw {f : Fault} (h : bad f b) : Ends (MonadExcept.throw f) b good bad := ⟨h⟩

theorem change {g : Board → Board} {good : Unit → Board → Prop} (h : good () (g b)) :
    Ends (modify g) b good bad := ⟨h⟩

theorem mono {w : Work β} {good' : β → Board → Prop} {bad' : Fault → Board → Prop} (h : Ends w b good' bad')
    (hgood : ∀ a b', good' a b' → good a b') (hbad : ∀ f b', bad' f b' → bad f b') : Ends w b good bad := by
  constructor
  cases hw : w b with
  | ok a b' => exact hgood a b' (h.ok hw)
  | error f b' => exact hbad f b' (h.error hw)

theorem mono_good {w : Work β} {good' : β → Board → Prop} (h : Ends w b good' bad)
    (hgood : ∀ a b', good' a b' → good a b') : Ends w b good bad :=
  h.mono hgood fun _ _ h => h

theorem mono_bad {w : Work β} {bad' : Fault → Board → Prop} (h : Ends w b good bad')
    (hbad : ∀ f b', bad' f b' → bad f b') : Ends w b good bad :=
  h.mono (fun _ _ h => h) hbad

/-- One computation after another. -/
theorem bind (h : Ends w b mid bad) (hk : ∀ a b', mid a b' → Ends (k a) b' good bad) :
    Ends (w >>= k) b good bad := by
  constructor
  cases hw : w b with
  | ok a b' =>
    rw [Work.bind_of_ok hw]
    exact (hk a b' (h.ok hw)).outcome
  | error f b' =>
    rw [Work.bind_of_error hw]
    exact h.error hw

theorem get_bind {k : Board → Work β} (h : Ends (k b) b good bad) : Ends (MonadState.get >>= k) b good bad :=
  ⟨h.outcome⟩

theorem pins_bind {k : PinTable → Work β} (h : Ends (k b.pins) b good bad) : Ends (Work.pins >>= k) b good bad :=
  ⟨h.outcome⟩

theorem change_bind {g : Board → Board} {k : Unit → Work β} (h : Ends (k ()) (g b) good bad) :
    Ends (modify g >>= k) b good bad :=
  ⟨h.outcome⟩

theorem set_bind {k : PUnit → Work β} (h : Ends (k ()) b' good bad) : Ends (set b' >>= k) b good bad :=
  ⟨h.outcome⟩

/-- A result or a fault that comes from elsewhere. -/
theorem of_bind (hgood : ∀ a, m = .ok a → Ends (k a) b good bad) (hbad : ∀ f, m = .error f → bad f b) :
    Ends (Work.of m >>= k) b good bad := by
  cases m with
  | ok a => exact ⟨(hgood a rfl).outcome⟩
  | error f => exact ⟨hbad f rfl⟩

theorem computed_bind (hgood : ∀ a, c = .ok a → Ends (k a) b good bad)
    (hbad : ∀ e, c = .error e → bad (.breakdown (.arithmetic e)) b) :
    Ends (Work.ofComputed c >>= k) b good bad := by
  cases c with
  | ok a => exact ⟨(hgood a rfl).outcome⟩
  | error e => exact ⟨hbad e rfl⟩

/-- A loop over a list, with what every turn keeps. -/
theorem each {xs : List α} {body : α → PUnit → Work (ForInStep PUnit)} {P : Board → Prop} (h : P b)
    (hbody : ∀ a ∈ xs, ∀ b, P b → Ends (body a ⟨⟩) b (fun r b' => r = .yield ⟨⟩ ∧ P b') bad) :
    Ends (forIn xs ⟨⟩ body) b (fun _ b' => P b') bad := by
  induction xs generalizing b with
  | nil => exact .pure h
  | cons x xs ih =>
    obtain ⟨hx, hxs⟩ := List.forall_mem_cons.1 hbody
    rw [List.forIn_cons]
    refine (hx b h).bind fun r b' hr => ?_
    obtain ⟨rfl, hb'⟩ := hr
    exact ih hb' hxs

end Ends

/-! ## What commands change -/

namespace Board

/-- The board with some pins set, one after the other, and some labels added. -/
def extend (b : Board) (pins : List (String × Point)) (labels : List Label) : Board :=
  { b with pins := b.pins.setAll pins, labels := b.labels ++ labels }

@[simp]
theorem extend_nil (b : Board) : b.extend [] [] = b := by
  simp [extend]

theorem extend_extend (b : Board) (pins more : List (String × Point)) (labels others : List Label) :
    (b.extend pins labels).extend more others = b.extend (pins ++ more) (labels ++ others) := by
  simp [extend, PinTable.setAll_append]

/-- A board on which all points are finite: the pins, and the offset that is added to new ones. -/
structure IsFinite (b : Board) : Prop where
  pins : b.pins.IsFinite
  offset : b.offset.isFinite = true

theorem start_isFinite : Board.start.IsFinite where
  pins := fun _ he => by cases he
  offset := by
    have hzero := Binary64.isFinite_ofNat (k := 0) (by decide)
    rw [Board.start, Point.isFinite, hzero]
    rfl

theorem IsFinite.extend {b : Board} {pins : List (String × Point)} {labels : List Label} (h : b.IsFinite)
    (hpins : ∀ e ∈ pins, e.2.isFinite = true) : (b.extend pins labels).IsFinite :=
  ⟨h.pins.setAll hpins, h.offset⟩

end Board
end Pinboard
