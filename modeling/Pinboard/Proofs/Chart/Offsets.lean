import Pinboard.Proofs.Chart.Commuting
import Pinboard.Proofs.Chart.Drawn

/-!
# What the offset is added to

The offset is added to the pins of two kinds of lines, and what it is added to stands on the line itself: so the pins
that such a line sets depend on the line and on the offset, and on nothing else (`executeAt_offset`). All other lines
that set or move pins find their points among the pins that there are: what they set depends on the line and on those
pins, and on nothing else (`executeAt_pins`). Both are shown by two runs of a line side by side: `Follows R S w` says
that on boards related by `R` the computation `w` comes to the same result, and leaves boards related by `S`.
-/

namespace Pinboard

open Work

/-- The verbs that add the offset to the pins that they set. -/
def Verb.addsOffset : Verb → Bool
  | .pin | .auto _ => true
  | _ => false

/-! ## Two runs -/

/-- What has a result on one of two related boards has it on the other one too, and leaves related boards. -/
structure Follows {α : Type} (R S : Board → Board → Prop) (w : Work α) : Prop where
  runs : ∀ {b c b' : Board} {a : α}, R b c → w b = .ok a b' → ∃ c', w c = .ok a c' ∧ S b' c'

namespace Follows

variable {α β : Type} {R S T : Board → Board → Prop} {w : Work α} {k : α → Work β}

theorem pure (a : α) : Follows R R (Pure.pure a : Work α) where
  runs {b c _ _} h hb := by
    cases hb
    exact ⟨c, rfl, h⟩

theorem throw (fault : Fault) : Follows R S (MonadExcept.throw fault : Work α) where
  runs _ hb := by cases hb

theorem bind (h : Follows R S w) (hk : ∀ a, Follows S T (k a)) : Follows R T (w >>= k) where
  runs hrelated hb := by
    obtain ⟨a, b₁, hw, hb⟩ := exists_of_bind_ok hb
    obtain ⟨c₁, hw', hrelated⟩ := h.runs hrelated hw
    obtain ⟨c', hc, hrelated⟩ := (hk a).runs hrelated hb
    exact ⟨c', (bind_of_ok hw').trans hc, hrelated⟩

theorem of (m : Except Fault α) : Follows R R (Work.of m) := by
  cases m with
  | ok a => exact pure a
  | error fault => exact throw fault

theorem ofComputed (m : Computed α) : Follows R R (Work.ofComputed m) := by
  cases m with
  | ok a => exact pure a
  | error e => exact throw _

/-- A look at the board for something in which the boards are the same. -/
theorem get_bind {k : Board → Work β} (heq : ∀ b c, R b c → k c = k b) (hk : ∀ b, Follows R S (k b)) :
    Follows R S (MonadState.get >>= k) where
  runs {b c _ _} h hb := by
    obtain ⟨c', hc, hrelated⟩ := (hk b).runs h hb
    rw [← heq b c h] at hc
    exact ⟨c', hc, hrelated⟩

/-- A look at the pins for something in which they are the same. -/
theorem pins_bind {k : PinTable → Work β} (heq : ∀ b c, R b c → k c.pins = k b.pins) (hk : ∀ t, Follows R S (k t)) :
    Follows R S (pins >>= k) :=
  get_bind (k := fun b => k b.pins) heq fun b => hk b.pins

theorem change {g : Board → Board} (h : ∀ b c, R b c → S (g b) (g c)) : Follows R S (modify g : Work Unit) where
  runs {b c _ _} hrelated hb := by
    cases hb
    exact ⟨g c, rfl, h b c hrelated⟩

end Follows

/-! ## Pins that are placed -/

/-- Two boards have the same offset, and the same points at some names. -/
structure Board.AgreesAt (names : List String) (b c : Board) : Prop where
  offset : c.offset = b.offset
  pins : ∀ name ∈ names, c.pins.point? name = b.pins.point? name

section
variable {names : List String} {command name : String}

theorem setPin_agrees (p : Point) :
    Follows (Board.AgreesAt names) (Board.AgreesAt (name :: names)) (setPin name p) := by
  refine .change fun b c h => ⟨h.offset, fun other hother => ?_⟩
  rw [PinTable.point?_set, PinTable.point?_set]
  split
  next => rfl
  next hne => exact h.pins other ((List.mem_cons.1 hother).resolve_left hne)

theorem setPins_agrees (pins : List (String × Point)) :
    Follows (Board.AgreesAt names) (Board.AgreesAt names) (setPins pins) :=
  .change fun _ _ h => ⟨h.offset, fun name hname => PinTable.point?_setAll_congr (h.pins name hname) pins⟩

theorem place_agrees (p : Point) :
    Follows (Board.AgreesAt names) (Board.AgreesAt (name :: names)) (place command name p) := by
  refine .get_bind (fun b c h => ?_) fun b => .bind (.of _) fun q => setPin_agrees q
  simp only [h.offset]

/-- What agreed before the pins are placed agrees after that, and so do the pins. -/
theorem places_agree {α : Type} (suffix : α → String) (point : α → Point) (xs : List α) :
    Follows (Board.AgreesAt names) (Board.AgreesAt ((xs.map suffix).reverse ++ names))
      (xs.forM fun x => place command (suffix x) (point x)) := by
  induction xs generalizing names with
  | nil => exact .pure _
  | cons x xs ih =>
    rw [List.map_cons, List.reverse_cons, List.append_assoc]
    exact .bind (place_agrees _) fun _ => ih

theorem requirePositive_follows {R : Board → Board → Prop} (dimension : String) (x : Binary64) :
    Follows R R (requirePositive command dimension x) := by
  unfold requirePositive
  split
  · exact .bind (.ofComputed _) fun _ => .throw _
  · exact .pure _

/-- The pin that is moved out is one of those at which the boards agree. -/
theorem pushOut_agrees {side : Side} (hmem : name ++ side.pinSuffix ∈ names) (a : Area) :
    Follows (Board.AgreesAt names) (Board.AgreesAt names) (pushOut command name side a) := by
  unfold pushOut
  refine .pins_bind (fun b c h => by rw [h.pins _ hmem]) fun t => ?_
  split
  · exact .throw _
  · exact .bind (.of _) fun moved => setPins_agrees moved

/-- The pins of a shape depend on the offset alone. -/
theorem AutoCommand.setPins_agree (a : AutoCommand) :
    Follows (Board.AgreesAt []) (Board.AgreesAt ((autoNames a.name).reverse ++ [])) a.setPins := by
  refine .bind (.of _) fun x => .bind (.of _) fun y => .bind (.of _) fun width => .bind (.of _) fun height => ?_
  refine .bind (requirePositive_follows _ _) fun _ => .bind (requirePositive_follows _ _) fun _ => ?_
  refine .bind (.of _) fun side => .bind (places_agree _ _ autoPins) fun _ => ?_
  split
  · exact pushOut_agrees (List.mem_append_left _ (List.mem_reverse.2 (pinSuffix_mem _ _))) _
  · exact .pure _

theorem Placement.pin_agrees (name x y : String) :
    Follows (Board.AgreesAt []) (Board.AgreesAt [name]) (Placement.pin name x y) :=
  .bind (.of _) fun _ => .bind (.of _) fun _ => place_agrees _

end

/-! ## Pins that are derived from others -/

/-- A board has the pins of another one, and everything else of a third. -/
def Board.HasPins (rest b c : Board) : Prop := c = { rest with pins := b.pins }

/-- A computation does to the pins what depends on them alone, and to the board nothing else. -/
abbrev OnPins {α : Type} (rest : Board) (w : Work α) : Prop := Follows rest.HasPins rest.HasPins w

namespace Follows

variable {α β : Type} {rest : Board}

/-- Looking up something about the pins. -/
theorem look {m : PinTable → Meaning α} {k : α → Work β} (hk : ∀ a, OnPins rest (k a)) :
    OnPins rest (pins >>= fun t => Work.of (m t) >>= k) := by
  refine .pins_bind (fun b c h => ?_) fun t => .bind (.of _) hk
  rw [show c.pins = b.pins by rw [h]]

theorem setPins (moved : List (String × Point)) : OnPins rest (Work.setPins moved) := by
  refine .change fun b c h => ?_
  rw [h]
  rfl

theorem setFinitePin (command name : String) (p : Point) : OnPins rest (Work.setFinitePin command name p) :=
  .bind (.of _) fun q => setPins [(name, q)]

theorem shift (command : String) (group : List (String × Point)) (dx dy : Binary64) :
    OnPins rest (Work.shift command group dx dy) :=
  .bind (.of _) fun moved => setPins moved

end Follows

namespace Placement

variable {rest : Board}

theorem offset_onPins (name source dx dy : String) : OnPins rest (offset name source dx dy) :=
  .look fun _ => .bind (.of _) fun _ => .bind (.of _) fun _ => .setFinitePin _ _ _

theorem split_onPins (name first second : String) : OnPins rest (split name first second) :=
  .look fun _ => .look fun _ => .setFinitePin _ _ _

theorem corner_onPins (name first second : String) : OnPins rest (corner name first second) :=
  .look fun _ => .look fun _ => .setPins [(name, _)]

theorem project_onPins (name a b target : String) : OnPins rest (project name a b target) :=
  .look fun _ => .look fun _ => .look fun _ => .setFinitePin _ _ _

theorem move_onPins (dx dy : String) (names : List String) : OnPins rest (move dx dy names) :=
  .bind (.of _) fun _ => .bind (.of _) fun _ => .look fun _ => .shift _ _ _ _

theorem moveTo_onPins (anchor : Anchor) (base : String) (names : List String) :
    OnPins rest (moveTo anchor base names) := by
  refine .look fun p => .look fun group => .bind (.of _) fun e => ?_
  split
  · exact .shift _ _ _ _
  · exact .shift _ _ _ _

theorem moveOver_onPins (base reference : String) (names : List String) : OnPins rest (moveOver base reference names) :=
  .look fun _ => .look fun _ => .look fun _ => .shift _ _ _ _

theorem reset_onPins (names : List String) : OnPins rest (reset names) :=
  .look fun _ => .bind (.of _) fun _ => .shift _ _ _ _

end Placement

/-! ## Lines -/

section
variable {b b' c c' : Board} {number number' : Nat} {line : String} {verb : Verb} {fragment fragment' : Fragment}

theorem Command.run_onPins {words : List String} {command : Command} {rest : Board}
    (hwords : Command.ofWords verb words = some command) (hplaces : verb.places = true) (hpin : verb ≠ .pin) :
    OnPins rest command.run := by
  have hquiet {w : Work Unit} (h : OnPins rest w) : OnPins rest (w >>= fun _ => pure ([] : Fragment)) :=
    h.bind fun _ => .pure _
  revert hwords
  fun_cases Command.ofWords verb words <;> intro hwords
  case case1 => exact absurd rfl hpin
  case case10 | case11 | case12 | case13 | case14 | case15 | case16 | case17 => cases hplaces
  case case18 => cases hwords
  all_goals cases hwords
  · exact hquiet (Placement.offset_onPins _ _ _ _)
  · exact hquiet (Placement.split_onPins _ _ _)
  · exact hquiet (Placement.corner_onPins _ _ _)
  · exact hquiet (Placement.project_onPins _ _ _ _)
  · exact hquiet (Placement.move_onPins _ _ _)
  · exact hquiet (Placement.moveTo_onPins _ _ _)
  · exact hquiet (Placement.moveOver_onPins _ _ _)
  · exact hquiet (Placement.reset_onPins _)

/-- A line that sets or moves pins otherwise than at two coordinates does the same to the same pins, whatever the
offset is and the rest of the board, which it leaves as it is. -/
theorem executeAt_pins (hverb : verbOf line = some verb) (hplaces : verb.places = true) (hpin : verb ≠ .pin)
    (h : executeAt number line b = .ok fragment b') (hpins : c.pins = b.pins) :
    executeAt number line c = .ok fragment { c with pins := b'.pins, lineNumber := number } := by
  rw [executeAt_eq] at h ⊢
  obtain ⟨command, hcommand, hrun⟩ := of_bind_ok h
  obtain ⟨first, words, -, -, hwords⟩ := Command.ofLine_words hverb hcommand
  have hhas : (c.onLine number).HasPins (b.onLine number) (c.onLine number) := by
    rw [Board.HasPins, Board.onLine, Board.onLine, ← hpins]
  obtain ⟨c', hagain, rfl⟩ := (Command.run_onPins hwords hplaces hpin).runs hhas hrun
  rw [execute, hcommand]
  exact hagain

/-- The pins that a line sets by the offset have the same points on all boards with this offset. -/
theorem executeAt_offset (hverb : verbOf line = some verb) (hadds : verb.addsOffset = true)
    (h : executeAt number line b = .ok fragment b') (h' : executeAt number' line c = .ok fragment' c')
    (hoffset : c.offset = b.offset) : ∀ name ∈ createdNames line, c'.pins.point? name = b'.pins.point? name := by
  rw [executeAt_eq] at h h'
  obtain ⟨command, hcommand, hrun⟩ := of_bind_ok h
  obtain ⟨command', hcommand', hrun'⟩ := of_bind_ok h'
  cases hcommand.symm.trans hcommand'
  obtain ⟨hsound, hcreates, -⟩ := Command.ofLine_spec hcommand
  obtain ⟨first, words, -, -, hwords⟩ := Command.ofLine_words hverb hcommand
  have hagrees : (b.onLine number).AgreesAt [] (c.onLine number') := ⟨hoffset, nofun⟩
  rw [← hcreates]
  cases verb with
  | pin =>
    obtain ⟨name, x, y, rest, rfl⟩ : ∃ name x y rest, words = name :: x :: y :: rest := by
      match words, hwords with
      | name :: x :: y :: rest, _ => exact ⟨name, x, y, rest, rfl⟩
    cases hwords
    obtain ⟨_, b₁, hset, hrun⟩ := exists_of_bind_ok hrun
    obtain ⟨_, c₁, hset', hrun'⟩ := exists_of_bind_ok hrun'
    cases hrun
    cases hrun'
    obtain ⟨c₂, hagain, hagree⟩ := (Placement.pin_agrees name x y).runs hagrees hset
    cases hagain.symm.trans hset'
    exact hagree.pins
  | auto kind =>
    obtain ⟨a, -, rfl⟩ := Option.map_eq_some_iff.1 hwords
    obtain ⟨s, hs, -, -⟩ := AutoCommand.ofWords_shapeWords hsound
    obtain ⟨b₁, hset, hdraw⟩ := AutoCommand.exists_draw hsound hs hrun
    obtain ⟨c₁, hset', hdraw'⟩ := AutoCommand.exists_draw hsound hs hrun'
    obtain ⟨labels, rfl, -⟩ := ShapeCommand.draw_again hdraw
    obtain ⟨labels', rfl, -⟩ := ShapeCommand.draw_again hdraw'
    obtain ⟨c₂, hagain, hagree⟩ := a.setPins_agree.runs hagrees hset
    cases hagain.symm.trans hset'
    exact fun name hname => hagree.pins name (List.mem_append_left _ (List.mem_reverse.2 hname))
  | _ => cases hadds

end
end Pinboard
