import Pinboard.Proofs.Chart.Auto

/-!
# What a computation depends on

A footprint names the pins that a computation looks up, the pins that it may set, and the other things that
it may change. `Acts f w` says that `w` keeps to the footprint `f`: on two boards that agree on what the
footprint names (`Board.Agrees`) it comes to the same result or fault, and makes the same change to both
(`Change`). As for contracts there is one rule for each way of putting a computation together.
-/

namespace Pinboard

open Work

/-! ## Changes -/

/-- What a computation does to a board. -/
structure Change where
  /-- The pins that are set, one after the other. -/
  pins : List (String × Point) := []
  labels : List Label := []
  /-- How many identifiers of lines are used up. -/
  lines : Nat := 0
  fill : Option (Option String) := none
  stroke : Option (Option String) := none
  offset : Option Point := none

/-- One change after another. -/
def Change.andThen (e e' : Change) : Change where
  pins := e.pins ++ e'.pins
  labels := e.labels ++ e'.labels
  lines := e.lines + e'.lines
  fill := e'.fill <|> e.fill
  stroke := e'.stroke <|> e.stroke
  offset := e'.offset <|> e.offset

/-- The board with a change made to it. -/
def Board.apply (b : Board) (e : Change) : Board :=
  { b with
    pins := b.pins.setAll e.pins
    fill := e.fill.getD b.fill
    stroke := e.stroke.getD b.stroke
    offset := e.offset.getD b.offset
    lineCounter := b.lineCounter + e.lines
    labels := b.labels ++ e.labels }

theorem Board.apply_nothing (b : Board) : b.apply {} = b := by
  simp [Board.apply]

theorem Board.apply_andThen (b : Board) (e e' : Change) : b.apply (e.andThen e') = (b.apply e).apply e' := by
  have hlast {α : Type} (x x' : Option α) (a : α) : (x' <|> x).getD a = x'.getD (x.getD a) := by
    cases x' <;> rfl
  simp only [Board.apply, Change.andThen, PinTable.setAll_append, hlast, List.append_assoc, Nat.add_assoc]

/-! ## Footprints -/

/-- What a computation may look up and change. -/
structure Footprint where
  /-- The names of the pins that are looked up. -/
  uses : List String := []
  /-- The names of the pins that are set. -/
  sets : List String := []
  /-- Whether labels are added. -/
  draws : Bool := false
  /-- Whether identifiers of lines are used up. -/
  counts : Bool := false
  /-- Whether the colours or the offset are set. -/
  styles : Bool := false

/-- A change that keeps to a footprint. -/
structure Footprint.Allows (f : Footprint) (e : Change) : Prop where
  pins : ∀ pin ∈ e.pins, pin.1 ∈ f.sets
  labels : f.draws = false → e.labels = []
  lines : f.counts = false → e.lines = 0
  styles : f.styles = false → e.fill = none ∧ e.stroke = none ∧ e.offset = none

theorem Footprint.allows_nothing (f : Footprint) : f.Allows {} := by
  refine ⟨?_, fun _ => rfl, fun _ => rfl, fun _ => ⟨rfl, rfl, rfl⟩⟩
  simp

theorem Footprint.Allows.andThen {f : Footprint} {e e' : Change} (h : f.Allows e) (h' : f.Allows e') :
    f.Allows (e.andThen e') := by
  refine ⟨List.forall_mem_append.2 ⟨h.pins, h'.pins⟩, ?_, ?_, ?_⟩
  · intro hdraws
    rw [Change.andThen, h.labels hdraws, h'.labels hdraws]
    rfl
  · intro hcounts
    rw [Change.andThen, h.lines hcounts, h'.lines hcounts]
  · intro hstyles
    obtain ⟨hfill, hstroke, hoffset⟩ := h.styles hstyles
    obtain ⟨hfill', hstroke', hoffset'⟩ := h'.styles hstyles
    simp [Change.andThen, hfill, hstroke, hoffset, hfill', hstroke', hoffset']

/-- Two boards are the same as far as a footprint can tell. -/
structure Board.Agrees (f : Footprint) (b b' : Board) : Prop where
  pins : ∀ name ∈ f.uses, b'.pins.point? name = b.pins.point? name
  fill : b'.fill = b.fill
  stroke : b'.stroke = b.stroke
  offset : b'.offset = b.offset
  lineNumber : b'.lineNumber = b.lineNumber
  lineCounter : f.counts = true → b'.lineCounter = b.lineCounter

theorem Board.Agrees.refl (f : Footprint) (b : Board) : Board.Agrees f b b :=
  ⟨fun _ _ => rfl, rfl, rfl, rfl, rfl, fun _ => rfl⟩

/-- Setting the same pins makes no difference where there was none. -/
theorem PinTable.point?_setAll_congr {t t' : PinTable} {name : String} (h : t'.point? name = t.point? name)
    (pins : List (String × Point)) : (t'.setAll pins).point? name = (t.setAll pins).point? name := by
  induction pins generalizing t t' with
  | nil => exact h
  | cons pin pins ih =>
    refine ih ?_
    rw [point?_set, point?_set, h]

/-- The same change keeps boards alike. -/
theorem Board.Agrees.apply {f : Footprint} {b b' : Board} (h : Board.Agrees f b b') (e : Change) :
    Board.Agrees f (b.apply e) (b'.apply e) := by
  refine ⟨?_, ?_, ?_, ?_, h.lineNumber, ?_⟩
  · intro name hname
    exact PinTable.point?_setAll_congr (h.pins name hname) e.pins
  · simp only [Board.apply, h.fill]
  · simp only [Board.apply, h.stroke]
  · simp only [Board.apply, h.offset]
  · intro hcounts
    simp only [Board.apply, h.lineCounter hcounts]

/-- A computation comes to the same on two boards and makes the same change to both. -/
inductive Alike {α : Type} (f : Footprint) (w : Work α) (b b' : Board) : Prop
  | ok (e : Change) (a : α) (allowed : f.Allows e) (first : w b = .ok a (b.apply e))
      (second : w b' = .ok a (b'.apply e))
  | error (e : Change) (fault : Fault) (allowed : f.Allows e) (first : w b = .error fault (b.apply e))
      (second : w b' = .error fault (b'.apply e))

/-- A computation keeps to a footprint. -/
def Acts {α : Type} (f : Footprint) (w : Work α) : Prop := ∀ b b', Board.Agrees f b b' → Alike f w b b'

/-- What has a result on one board has it on a board that agrees with it, and makes the same change there. -/
theorem Acts.alike_of_ok {α : Type} {f : Footprint} {w : Work α} {b b' c : Board} {a : α} (h : Acts f w)
    (hw : w b = .ok a b') (hagrees : Board.Agrees f b c) :
    ∃ e, f.Allows e ∧ b' = b.apply e ∧ w c = .ok a (c.apply e) := by
  cases h b c hagrees with
  | ok e a' he first second =>
    cases hw.symm.trans first
    exact ⟨e, he, rfl, second⟩
  | error e fault he first second => cases hw.symm.trans first

/-! ## The rules -/

namespace Acts

variable {α β : Type} {f : Footprint} {w : Work α} {k : α → Work β}

theorem pure (a : α) : Acts f (Pure.pure a) := by
  intro b b' _
  refine .ok {} a f.allows_nothing ?_ ?_ <;> rw [Board.apply_nothing] <;> rfl

theorem throw (fault : Fault) : Acts f (MonadExcept.throw fault : Work α) := by
  intro b b' _
  refine .error {} fault f.allows_nothing ?_ ?_ <;> rw [Board.apply_nothing] <;> rfl

/-- One computation after another. -/
theorem bind (h : Acts f w) (hk : ∀ a, Acts f (k a)) : Acts f (w >>= k) := by
  intro b b' hagrees
  cases h b b' hagrees with
  | ok e a he first second =>
    cases hk a _ _ (hagrees.apply e) with
    | ok e' a' he' first' second' =>
      refine .ok (e.andThen e') a' (he.andThen he') ?_ ?_
      · rw [bind_of_ok first, first', Board.apply_andThen]
      · rw [bind_of_ok second, second', Board.apply_andThen]
    | error e' fault he' first' second' =>
      refine .error (e.andThen e') fault (he.andThen he') ?_ ?_
      · rw [bind_of_ok first, first', Board.apply_andThen]
      · rw [bind_of_ok second, second', Board.apply_andThen]
  | error e fault he first second =>
    exact .error e fault he (bind_of_error first) (bind_of_error second)

theorem of (m : Except Fault α) : Acts f (Work.of m) := by
  cases m with
  | ok a => exact pure a
  | error fault => exact throw fault

theorem ofComputed (c : Computed α) : Acts f (Work.ofComputed c) := by
  cases c with
  | ok a => exact pure a
  | error e => exact throw _

/-- A result that comes from elsewhere, with what is known about it. -/
theorem of_bind {m : Except Fault α} (hk : ∀ a, m = .ok a → Acts f (k a)) : Acts f (Work.of m >>= k) := by
  cases m with
  | ok a => exact hk a rfl
  | error fault => exact throw fault

/-- A look at the board for something on which boards agree. -/
theorem get_bind {k : Board → Work β} (heq : ∀ b b', Board.Agrees f b b' → k b' = k b) (hk : ∀ b, Acts f (k b)) :
    Acts f (MonadState.get >>= k) := by
  intro b b' hagrees
  have hboth : Alike f (k b) b b' := hk b b b' hagrees
  cases hboth with
  | ok e a he first second => exact .ok e a he first ((congrFun (heq b b' hagrees) b').trans second)
  | error e fault he first second => exact .error e fault he first ((congrFun (heq b b' hagrees) b').trans second)

/-- A look at the pins that the footprint names. -/
theorem pins_bind {k : PinTable → Work β}
    (heq : ∀ t t' : PinTable, (∀ name ∈ f.uses, t'.point? name = t.point? name) → k t' = k t)
    (hk : ∀ t, Acts f (k t)) : Acts f (pins >>= k) := by
  have hpins : (pins >>= k) = (MonadState.get >>= fun b : Board => k b.pins) := rfl
  rw [hpins]
  exact get_bind (fun b b' h => heq _ _ h.pins) fun b => hk b.pins

/-- Making a change that the footprint allows. -/
theorem change {g : Board → Board} (e : Change) (he : f.Allows e) (h : ∀ b, g b = b.apply e) :
    Acts f (modify g : Work Unit) := by
  intro b b' _
  refine .ok e () he ?_ ?_ <;> rw [← h] <;> rfl

/-- A loop that goes through a list. -/
theorem each {xs : List α} {body : α → PUnit → Work (ForInStep PUnit)} (h : ∀ a r, Acts f (body a r)) :
    Acts f (forIn xs ⟨⟩ body) := by
  induction xs with
  | nil => exact pure _
  | cons x xs ih =>
    rw [List.forIn_cons]
    refine bind (h x _) fun r => ?_
    cases r with
    | done r => exact pure r
    | yield r => exact ih

theorem forM {xs : List α} {body : α → Work PUnit} (h : ∀ a ∈ xs, Acts f (body a)) : Acts f (xs.forM body) := by
  induction xs with
  | nil => exact pure _
  | cons x xs ih =>
    obtain ⟨hx, hxs⟩ := List.forall_mem_cons.1 h
    exact bind hx fun _ => ih hxs

end Acts

/-! ## Looking up pins -/

section

variable {α : Type} {f : Footprint} {t t' : PinTable} {names : List String} {command name : String}

theorem Meaning.pin_congr (h : t'.point? name = t.point? name) : pin t' command name = pin t command name := by
  rw [pin, pin, h]

theorem Meaning.group_congr (h : ∀ name ∈ names, t'.point? name = t.point? name) :
    group t' command names = group t command names := by
  have heach : ∀ name ∈ names.eraseDups, t'.point? name = t.point? name := by
    intro name hname
    exact h name (List.mem_eraseDups.1 hname)
  rw [group, group]
  generalize names.eraseDups = each at heach
  induction each with
  | nil => rfl
  | cons name each ih =>
    obtain ⟨hname, hrest⟩ := List.forall_mem_cons.1 heach
    rw [List.mapM_cons, List.mapM_cons, ih hrest, pin_congr hname]

namespace Acts

theorem pin_bind {k : Point → Work α} (hname : name ∈ f.uses) (hk : ∀ p, Acts f (k p)) :
    Acts f (pins >>= fun t => Work.of (Meaning.pin t command name) >>= k) := by
  refine pins_bind (fun t t' h => ?_) fun t => bind (of _) hk
  simp only [Meaning.pin_congr (h name hname)]

/-- The pins of a group are those of its names. -/
theorem group_bind {k : List (String × Point) → Work α} (hnames : ∀ name ∈ names, name ∈ f.uses)
    (hk : ∀ group : List (String × Point), group.map Prod.fst = names.eraseDups → Acts f (k group)) :
    Acts f (pins >>= fun t => Work.of (Meaning.group t command names) >>= k) := by
  refine pins_bind (fun t t' h => ?_) fun t => of_bind fun group hg => ?_
  · simp only [Meaning.group_congr fun name hname => h name (hnames name hname)]
  · exact hk group ((Meaning.group_gives t command names).ok hg).1

theorem corners_bind {first second : String} {k : Bounds → Work α} (hfirst : first ∈ f.uses)
    (hsecond : second ∈ f.uses) (hk : ∀ b, Acts f (k b)) :
    Acts f (pins >>= fun t => Work.of (Meaning.corners t command first second) >>= k) := by
  refine pins_bind (fun t t' h => ?_) fun t => bind (of _) hk
  simp only [Meaning.corners, Meaning.pin_congr (h first hfirst), Meaning.pin_congr (h second hsecond)]

end Acts
end

end Pinboard
