import Pinboard.Proofs.Chart.Locality

/-!
# The numbers of lines make no difference

Labels are recorded with the number of their line, and a complaint names it; nothing else depends on it.
`Blind w` says that a computation has the same result on boards that are the same but for the numbers of lines
(`Board.Matches`), and leaves such boards behind. Main statement: programs whose lines hold the same commands,
one after the other, have the same outcome but for those numbers, wherever the lines stand
(`Chart.run_matches`).
-/

namespace Pinboard

open Work

/-! ## Boards that are the same but for the numbers of lines -/

/-- A label without the number of its line. -/
def Label.unnumbered (l : Label) : Label := { l with line := 0 }

/-- Two boards are the same but for the numbers of lines. -/
structure Board.Matches (b b' : Board) : Prop where
  pins : b'.pins = b.pins
  fill : b'.fill = b.fill
  stroke : b'.stroke = b.stroke
  offset : b'.offset = b.offset
  lineCounter : b'.lineCounter = b.lineCounter
  labels : b'.labels.map Label.unnumbered = b.labels.map Label.unnumbered

theorem Board.Matches.refl (b : Board) : b.Matches b := ⟨rfl, rfl, rfl, rfl, rfl, rfl⟩

/-- Two computations come to the same, on boards that are the same but for the numbers of lines. -/
inductive Matched {α : Type} : EStateM.Result Fault Board α → EStateM.Result Fault Board α → Prop
  | ok (a : α) {b b' : Board} (h : b.Matches b') : Matched (.ok a b) (.ok a b')
  | error (fault : Fault) {b b' : Board} (h : b.Matches b') : Matched (.error fault b) (.error fault b')

namespace Matched

variable {α : Type} {b : Board} {r : EStateM.Result Fault Board α}

theorem exists_of_ok {a : α} (h : Matched (.ok a b) r) : ∃ b', r = .ok a b' ∧ b.Matches b' := by
  cases h with
  | ok _ h => exact ⟨_, rfl, h⟩

theorem exists_of_error {fault : Fault} (h : Matched (.error fault b) r) :
    ∃ b', r = .error fault b' ∧ b.Matches b' := by
  cases h with
  | error _ h => exact ⟨_, rfl, h⟩

end Matched

/-- A computation does not see the numbers of lines. -/
def Blind {α : Type} (w : Work α) : Prop := ∀ b b', Board.Matches b b' → Matched (w b) (w b')

/-! ## The rules -/

namespace Blind

variable {α β : Type} {w : Work α} {k : α → Work β}

theorem pure (a : α) : Blind (Pure.pure a) := fun _ _ h => .ok a h

theorem throw (fault : Fault) : Blind (MonadExcept.throw fault : Work α) := fun _ _ h => .error fault h

theorem bind (h : Blind w) (hk : ∀ a, Blind (k a)) : Blind (w >>= k) := by
  intro b b' hmatches
  have hboth := h b b' hmatches
  cases hw : w b with
  | ok a c =>
    rw [hw] at hboth
    obtain ⟨c', hw', hafter⟩ := hboth.exists_of_ok
    rw [bind_of_ok hw, bind_of_ok hw']
    exact hk a c c' hafter
  | error fault c =>
    rw [hw] at hboth
    obtain ⟨c', hw', hafter⟩ := hboth.exists_of_error
    rw [bind_of_error hw, bind_of_error hw']
    exact .error fault hafter

theorem of (m : Except Fault α) : Blind (Work.of m) := by
  cases m with
  | ok a => exact pure a
  | error fault => exact throw fault

theorem ofComputed (c : Computed α) : Blind (Work.ofComputed c) := by
  cases c with
  | ok a => exact pure a
  | error e => exact throw _

/-- A look at the board for something other than the numbers of lines. -/
theorem get_bind {k : Board → Work β} (heq : ∀ b b', Board.Matches b b' → k b' = k b) (hk : ∀ b, Blind (k b)) :
    Blind (MonadState.get >>= k) := by
  intro b b' h
  have hboth := hk b b b' h
  change Matched (k b b) (k b' b')
  rw [heq b b' h]
  exact hboth

theorem pins_bind {k : PinTable → Work β} (hk : ∀ t, Blind (k t)) : Blind (Work.pins >>= k) := by
  have hpins : (Work.pins >>= k) = (MonadState.get >>= fun b : Board => k b.pins) := rfl
  rw [hpins]
  refine get_bind (fun b b' h => ?_) fun b => hk b.pins
  rw [h.pins]

/-- A change that does not depend on the numbers of lines. -/
theorem change {g : Board → Board} (h : ∀ b b', Board.Matches b b' → Board.Matches (g b) (g b')) :
    Blind (modify g : Work Unit) :=
  fun b b' hmatches => .ok () (h b b' hmatches)

theorem each {xs : List α} {body : α → PUnit → Work (ForInStep PUnit)} (h : ∀ a r, Blind (body a r)) :
    Blind (forIn xs ⟨⟩ body) := by
  induction xs with
  | nil => exact pure _
  | cons x xs ih =>
    rw [List.forIn_cons]
    refine bind (h x _) fun r => ?_
    cases r with
    | done r => exact pure r
    | yield r => exact ih

theorem forM {xs : List α} {body : α → Work PUnit} (h : ∀ a, Blind (body a)) : Blind (xs.forM body) := by
  induction xs with
  | nil => exact pure _
  | cons x xs ih => exact bind (h x) fun _ => ih

/-- A label that is recorded with the number of the line. -/
theorem record_bind {label : Nat → Label} {k : Unit → Work β}
    (heq : ∀ number other, (label number).unnumbered = (label other).unnumbered) (hk : Blind (k ())) :
    Blind (MonadState.get >>= fun b : Board => record (label b.lineNumber) >>= k) := by
  intro b b' h
  refine hk _ _ ⟨h.pins, h.fill, h.stroke, h.offset, h.lineCounter, ?_⟩
  rw [List.map_append, List.map_append, h.labels, List.map_singleton, List.map_singleton,
    heq b'.lineNumber b.lineNumber]

end Blind

/-! ## Setting and moving pins -/

section
variable {command name : String}

theorem setPin_blind (p : Point) : Blind (setPin name p) :=
  .change fun _ _ h => ⟨by rw [h.pins], h.fill, h.stroke, h.offset, h.lineCounter, h.labels⟩

theorem setPins_blind (pins : List (String × Point)) : Blind (setPins pins) :=
  .change fun _ _ h => ⟨by rw [h.pins], h.fill, h.stroke, h.offset, h.lineCounter, h.labels⟩

theorem setFinitePin_blind (p : Point) : Blind (setFinitePin command name p) :=
  .bind (.of _) fun _ => setPin_blind _

theorem place_blind (p : Point) : Blind (place command name p) := by
  refine .get_bind (fun b b' h => ?_) fun b => setFinitePin_blind _
  simp only [h.offset]

theorem shift_blind (group : List (String × Point)) (dx dy : Binary64) : Blind (shift command group dx dy) :=
  .bind (.of _) fun _ => setPins_blind _

/-- Looking up something about the pins. -/
theorem look_blind {α β : Type} {m : PinTable → Meaning α} {k : α → Work β} (hk : ∀ a, Blind (k a)) :
    Blind (pins >>= fun t => of (m t) >>= k) :=
  .pins_bind fun _ => .bind (.of _) hk

end

namespace Placement

theorem pin_blind (name x y : String) : Blind (pin name x y) :=
  .bind (.of _) fun _ => .bind (.of _) fun _ => place_blind _

theorem offset_blind (name source dx dy : String) : Blind (offset name source dx dy) :=
  look_blind fun _ => .bind (.of _) fun _ => .bind (.of _) fun _ => setFinitePin_blind _

theorem split_blind (name first second : String) : Blind (split name first second) :=
  look_blind fun _ => look_blind fun _ => setFinitePin_blind _

theorem corner_blind (name first second : String) : Blind (corner name first second) :=
  look_blind fun _ => look_blind fun _ => setPin_blind _

theorem project_blind (name a b target : String) : Blind (project name a b target) :=
  look_blind fun _ => look_blind fun _ => look_blind fun _ => setFinitePin_blind _

theorem move_blind (dx dy : String) (names : List String) : Blind (move dx dy names) :=
  .bind (.of _) fun _ => .bind (.of _) fun _ => look_blind fun _ => shift_blind _ _ _

theorem moveTo_blind (anchor : Anchor) (base : String) (names : List String) : Blind (moveTo anchor base names) := by
  refine look_blind fun p => look_blind fun group => .bind (.of _) fun e => ?_
  split
  · exact shift_blind _ _ _
  · exact shift_blind _ _ _

theorem moveOver_blind (base reference : String) (names : List String) : Blind (moveOver base reference names) :=
  look_blind fun _ => look_blind fun _ => look_blind fun _ => shift_blind _ _ _

theorem reset_blind (names : List String) : Blind (reset names) :=
  look_blind fun _ => .bind (.of _) fun _ => shift_blind _ _ _

theorem translate_blind (x y : String) : Blind (translate x y) :=
  .bind (.of _) fun _ => .bind (.of _) fun _ =>
    .change fun _ _ h => ⟨h.pins, h.fill, h.stroke, rfl, h.lineCounter, h.labels⟩

end Placement

/-! ## Drawing -/

theorem recordCells_blind (a : Area) (cells : List String) (columns : Nat) (textClass : TextClass) :
    Blind (recordCells a cells columns textClass) := by
  refine .bind (.each fun cell r => ?_) fun _ => .pure _
  split
  · refine .bind (.ofComputed _) fun width => .bind (.ofComputed _) fun height => ?_
    exact .record_bind (fun _ _ => rfl) (.pure _)
  · exact .pure _

theorem textBlock_blind (a : Area) (cells : List String) (columns : Nat) (textClass : TextClass) :
    Blind (textBlock a cells columns textClass) :=
  .bind (recordCells_blind a cells columns textClass) fun _ => .ofComputed _

theorem shapeText_blind (a : Area) (text : String) (textClass : TextClass) : Blind (shapeText a text textClass) := by
  unfold shapeText
  split
  · exact .pure _
  · exact .bind (textBlock_blind _ _ _ _) fun _ => .pure _

theorem outline_blind (command : String) (points : List Point) : Blind (outline command points) := by
  unfold outline
  split
  · refine .get_bind (fun b b' h => ?_) fun b => .ofComputed _
    simp only [h.fill]
  · exact .throw _

theorem ShapeCommand.draw_blind (s : ShapeCommand) : Blind s.draw := by
  have hrectangle {a : Area} {radius : Option Binary64} {k : Element → Work Fragment} (hk : ∀ e, Blind (k e)) :
      Blind (MonadState.get >>= fun b : Board => ofComputed (Drawing.rectangle a b.fill radius) >>= k) := by
    refine .get_bind (fun b b' h => ?_) fun b => .bind (.ofComputed _) hk
    simp only [h.fill]
  have htext (a : Area) (textClass : TextClass) (figure : Element) :
      Blind (do return figure :: (← shapeText a s.text textClass)) :=
    .bind (shapeText_blind a s.text textClass) fun _ => .pure _
  unfold draw
  split
  · exact look_blind fun _ => hrectangle fun _ => htext _ _ _
  · exact look_blind fun _ => hrectangle fun _ => htext _ _ _
  · refine look_blind fun _ => .bind (.of _) fun columns => hrectangle fun figure => ?_
    split
    · exact .pure _
    · exact .bind (.of _) fun cells => .bind (textBlock_blind _ _ _ _) fun _ => .pure _
  · exact look_blind fun _ => hrectangle fun _ => htext _ _ _
  · exact look_blind fun _ => .bind (outline_blind _ _) fun _ => htext _ _ _
  · exact .bind (.of _) fun _ => look_blind fun _ => .bind (outline_blind _ _) fun _ => htext _ _ _
  · exact .bind (.of _) fun _ => .bind (.of _) fun _ => look_blind fun _ => .bind (outline_blind _ _) fun _ =>
      htext _ _ _
  · exact .bind (.of _) fun _ => look_blind fun _ => .bind (outline_blind _ _) fun _ => htext _ _ _

theorem nextLineId_blind : Blind nextLineId := by
  intro b b' h
  change Matched (.ok ("curve_" ++ Nat.repr b.lineCounter) _) (.ok ("curve_" ++ Nat.repr b'.lineCounter) _)
  rw [h.lineCounter]
  exact .ok _ ⟨h.pins, h.fill, h.stroke, h.offset, rfl, h.labels⟩

theorem LineCommand.draw_blind (l : LineCommand) : Blind l.draw := by
  refine look_blind fun start => look_blind fun finish => ?_
  generalize orient l.kind.flipped start finish = path
  obtain ⟨first, last, rightToLeft⟩ := path
  refine .bind nextLineId_blind fun id => .get_bind (fun b b' h => ?_) fun b => ?_
  · simp only [h.stroke]
  refine .bind (.ofComputed _) fun path => ?_
  split
  · exact .pure _
  · exact .record_bind (fun _ _ => rfl) (.pure _)

theorem requirePositive_blind (command dimension : String) (x : Binary64) :
    Blind (requirePositive command dimension x) := by
  unfold requirePositive
  split
  · exact .bind (.ofComputed _) fun _ => .throw _
  · exact .pure _

theorem pushOut_blind (command name : String) (side : Side) (a : Area) : Blind (pushOut command name side a) := by
  refine .pins_bind fun t => ?_
  split
  · exact .throw _
  · exact shift_blind _ _ _

theorem AutoCommand.draw_blind (c : AutoCommand) : Blind c.draw := by
  refine .bind ?_ fun _ => .bind (.of _) fun s => s.draw_blind
  refine .bind (.of _) fun x => .bind (.of _) fun y => .bind (.of _) fun width => .bind (.of _) fun height => ?_
  refine .bind (requirePositive_blind _ _ _) fun _ => .bind (requirePositive_blind _ _ _) fun _ => ?_
  refine .bind (.of _) fun side => .bind (.forM fun _ => place_blind _) fun _ => ?_
  split
  · exact pushOut_blind _ _ _ _
  · exact .pure _

/-! ## All commands -/

theorem Command.run_blind (c : Command) : Blind c.run := by
  have hquiet {w : Work Unit} (h : Blind w) : Blind (w >>= fun _ => pure ([] : Fragment)) :=
    h.bind fun _ => .pure _
  cases c with
  | pin name x y => exact hquiet (Placement.pin_blind name x y)
  | offset name source dx dy => exact hquiet (Placement.offset_blind name source dx dy)
  | split name first second => exact hquiet (Placement.split_blind name first second)
  | corner name first second => exact hquiet (Placement.corner_blind name first second)
  | project name a b target => exact hquiet (Placement.project_blind name a b target)
  | move dx dy group => exact hquiet (Placement.move_blind dx dy group)
  | moveTo anchor base group => exact hquiet (Placement.moveTo_blind anchor base group)
  | moveOver base reference group => exact hquiet (Placement.moveOver_blind base reference group)
  | reset group => exact hquiet (Placement.reset_blind group)
  | translate x y => exact hquiet (Placement.translate_blind x y)
  | setFill colour => exact hquiet (.change fun _ _ h => ⟨h.pins, rfl, h.stroke, h.offset, h.lineCounter, h.labels⟩)
  | setStroke colour => exact hquiet (.change fun _ _ h => ⟨h.pins, h.fill, rfl, h.offset, h.lineCounter, h.labels⟩)
  | shape s => exact s.draw_blind
  | auto a => exact a.draw_blind
  | line l => exact l.draw_blind

/-- Lines with the same command do the same, whatever their numbers. -/
theorem executeAt_matched (number number' : Nat) {line line' : String}
    (hsame : Command.ofLine line' = Command.ofLine line) {b b' : Board} (h : b.Matches b') :
    Matched (executeAt number line b) (executeAt number' line' b') := by
  have hexecute : execute line' = execute line := by
    unfold execute
    rw [hsame]
  have hblind : Blind (execute line) := .bind (.of _) fun c => c.run_blind
  rw [executeAt_eq, executeAt_eq, hexecute]
  exact hblind _ _ ⟨h.pins, h.fill, h.stroke, h.offset, h.lineCounter, h.labels⟩

/-! ## Runs -/

/-- Two programs end in the same way: with charts that are the same but for the numbers of lines, or with the same
complaint about a line, or with the same breakdown. -/
inductive SameOutcome : Except ProgramFault Chart → Except ProgramFault Chart → Prop
  | ok {chart chart' : Chart} (board : chart.board.Matches chart'.board)
      (fragments : chart'.fragments = chart.fragments) : SameOutcome (.ok chart) (.ok chart')
  | complaint (c : Complaint) (number number' : Nat) (source source' : String) :
      SameOutcome (.error (.complaint c number source)) (.error (.complaint c number' source'))
  | breakdown (bd : Breakdown) : SameOutcome (.error (.breakdown bd)) (.error (.breakdown bd))

namespace SameOutcome

variable {r : Except ProgramFault Chart}

theorem exists_of_ok {chart : Chart} (h : SameOutcome (.ok chart) r) :
    ∃ chart', r = .ok chart' ∧ chart.board.Matches chart'.board ∧ chart'.fragments = chart.fragments := by
  cases h with
  | ok hboard hfragments => exact ⟨_, rfl, hboard, hfragments⟩

theorem exists_of_error {fault : ProgramFault} (h : SameOutcome (.error fault) r) : ∃ fault', r = .error fault' := by
  cases h with
  | complaint => exact ⟨_, rfl⟩
  | breakdown => exact ⟨_, rfl⟩

theorem of_fault (fault : Fault) (number number' : Nat) (source source' : String) :
    SameOutcome (.error (fault.onLine number source)) (.error (fault.onLine number' source')) := by
  cases fault with
  | complaint c => exact .complaint c number number' source source'
  | breakdown bd => exact .breakdown bd

end SameOutcome

/-- The commands on some lines, or what is wrong with them. -/
def commandsOn (lines : List (Nat × String)) : List (Except Fault Command) :=
  lines.map fun line => Command.ofLine line.2

namespace Chart

/-- The step: a line on each side, with the same command. -/
theorem step_matches {chart chart' : Chart} {line line' : Nat × String}
    (hsame : Command.ofLine line'.2 = Command.ofLine line.2) (hboard : chart.board.Matches chart'.board)
    (hfragments : chart'.fragments = chart.fragments) : SameOutcome (chart.step line) (chart'.step line') := by
  obtain ⟨number, line⟩ := line
  obtain ⟨number', line'⟩ := line'
  have hmatched := executeAt_matched number number' hsame hboard
  cases h : executeAt number line chart.board with
  | ok fragment b =>
    rw [h] at hmatched
    obtain ⟨b', h', hafter⟩ := hmatched.exists_of_ok
    rw [step_of_ok h, step_of_ok h', hfragments]
    exact .ok hafter rfl
  | error fault b =>
    rw [h] at hmatched
    obtain ⟨b', h', -⟩ := hmatched.exists_of_error
    rw [step_of_error h, step_of_error h']
    exact .of_fault fault number number' line line'

/-- Lines with the same commands end in the same way. -/
theorem run_matches {chart chart' : Chart} {lines lines' : List (Nat × String)}
    (hsame : commandsOn lines' = commandsOn lines) (hboard : chart.board.Matches chart'.board)
    (hfragments : chart'.fragments = chart.fragments) : SameOutcome (chart.run lines) (chart'.run lines') := by
  induction lines generalizing lines' chart chart' with
  | nil =>
    obtain rfl := List.map_eq_nil_iff.1 hsame
    exact .ok hboard hfragments
  | cons line lines ih =>
    cases lines' with
    | nil => cases hsame
    | cons line' lines' =>
      obtain ⟨hline, hlines⟩ := List.cons.inj hsame
      have hstep := step_matches hline hboard hfragments
      cases h : chart.step line with
      | ok next =>
        rw [h] at hstep
        obtain ⟨next', h', hboard, hfragments⟩ := hstep.exists_of_ok
        rw [run_cons_of_ok h, run_cons_of_ok h']
        exact ih hlines hboard hfragments
      | error fault =>
        rw [h] at hstep
        obtain ⟨fault', h'⟩ := hstep.exists_of_error
        rw [run_cons_of_error h, run_cons_of_error h', ← h']
        exact hstep

end Chart

end Pinboard
