import Pinboard.Proofs.Chart.Footprint
import Pinboard.Proofs.Chart.Session

/-!
# The footprints of the commands

Each command looks up the pins that it names and no others, and what it changes can be read off its words:
`Command.footprint`. Main statement: a line keeps to the footprint of its command (`execute_acts`), so that it
does the same on all boards that agree there.
-/

namespace Pinboard

open Work
open Pinboard.Ring (maxCapacity)

variable {f : Footprint} {name command : String}

/-! ## Setting and moving pins -/

theorem setPin_acts (hname : name ∈ f.sets) (p : Point) : Acts f (setPin name p) := by
  refine .change { pins := [(name, p)] } ?_ fun b => ?_
  · refine ⟨?_, fun _ => rfl, fun _ => rfl, fun _ => ⟨rfl, rfl, rfl⟩⟩
    simpa using hname
  · simp [Board.apply]

theorem setPins_acts {pins : List (String × Point)} (hpins : ∀ pin ∈ pins, pin.1 ∈ f.sets) :
    Acts f (setPins pins) := by
  refine .change { pins := pins } ?_ fun b => ?_
  · exact ⟨hpins, fun _ => rfl, fun _ => rfl, fun _ => ⟨rfl, rfl, rfl⟩⟩
  · simp [Board.apply]

theorem setFinitePin_acts (hname : name ∈ f.sets) (p : Point) : Acts f (setFinitePin command name p) :=
  .bind (.of _) fun _ => setPin_acts hname _

theorem place_acts (hname : name ∈ f.sets) (p : Point) : Acts f (place command name p) := by
  refine .get_bind (fun b b' h => ?_) fun b => setFinitePin_acts hname _
  simp only [h.offset]

theorem shift_acts {group : List (String × Point)} (hgroup : ∀ name ∈ group.map Prod.fst, name ∈ f.sets)
    (dx dy : Binary64) : Acts f (shift command group dx dy) := by
  refine .of_bind fun moved hmoved => setPins_acts fun pin hpin => ?_
  obtain ⟨hnames, -⟩ := (shifted_gives command group dx dy).ok hmoved
  refine hgroup pin.1 ?_
  rw [← hnames]
  exact List.mem_map_of_mem hpin

namespace Placement

theorem pin_acts (hname : name ∈ f.sets) (x y : String) : Acts f (pin name x y) :=
  .bind (.of _) fun _ => .bind (.of _) fun _ => place_acts hname _

theorem offset_acts {source : String} (hsource : source ∈ f.uses) (hname : name ∈ f.sets) (dx dy : String) :
    Acts f (offset name source dx dy) :=
  .pin_bind hsource fun _ => .bind (.of _) fun _ => .bind (.of _) fun _ => setFinitePin_acts hname _

theorem split_acts {first second : String} (hfirst : first ∈ f.uses) (hsecond : second ∈ f.uses)
    (hname : name ∈ f.sets) : Acts f (split name first second) :=
  .pin_bind hfirst fun _ => .pin_bind hsecond fun _ => setFinitePin_acts hname _

theorem corner_acts {first second : String} (hfirst : first ∈ f.uses) (hsecond : second ∈ f.uses)
    (hname : name ∈ f.sets) : Acts f (corner name first second) :=
  .pin_bind hfirst fun _ => .pin_bind hsecond fun _ => setPin_acts hname _

theorem project_acts {a b target : String} (ha : a ∈ f.uses) (hb : b ∈ f.uses) (htarget : target ∈ f.uses)
    (hname : name ∈ f.sets) : Acts f (project name a b target) :=
  .pin_bind ha fun _ => .pin_bind hb fun _ => .pin_bind htarget fun _ => setFinitePin_acts hname _

variable {names : List String} (huses : ∀ name ∈ names, name ∈ f.uses) (hsets : ∀ name ∈ names, name ∈ f.sets)

include huses hsets

/-- Looking up a group and moving it. -/
theorem group_acts {k : List (String × Point) → Work Unit}
    (hk : ∀ group : List (String × Point), (∀ name ∈ group.map Prod.fst, name ∈ f.sets) → Acts f (k group)) :
    Acts f (pins >>= fun t => of (Meaning.group t command names) >>= k) := by
  refine .group_bind huses fun group hgroup => hk group fun name hname => ?_
  rw [hgroup] at hname
  exact hsets name (List.mem_eraseDups.1 hname)

theorem move_acts (dx dy : String) : Acts f (move dx dy names) :=
  .bind (.of _) fun _ => .bind (.of _) fun _ => group_acts huses hsets fun _ hgroup => shift_acts hgroup _ _

theorem moveTo_acts (anchor : Anchor) {base : String} (hbase : base ∈ f.uses) : Acts f (moveTo anchor base names) := by
  refine .pin_bind hbase fun p => group_acts huses hsets fun group hgroup => .bind (.of _) fun e => ?_
  split
  · exact shift_acts hgroup _ _
  · exact shift_acts hgroup _ _

theorem moveOver_acts {base reference : String} (hbase : base ∈ f.uses) (hreference : reference ∈ f.uses) :
    Acts f (moveOver base reference names) :=
  .pin_bind hbase fun _ => .pin_bind hreference fun _ => group_acts huses hsets fun _ hgroup => shift_acts hgroup _ _

theorem reset_acts : Acts f (reset names) :=
  group_acts huses hsets fun _ hgroup => .bind (.of _) fun _ => shift_acts hgroup _ _

end Placement

/-! ## Drawing shapes -/

theorem record_acts (hdraws : f.draws = true) (l : Label) : Acts f (record l) := by
  refine .change { labels := [l] } ?_ fun b => ?_
  · refine ⟨by simp, fun h => ?_, fun _ => rfl, fun _ => ⟨rfl, rfl, rfl⟩⟩
    rw [hdraws] at h
    cases h
  · simp [Board.apply]

section
variable (hdraws : f.draws = true)
include hdraws

theorem recordCells_acts (a : Area) (cells : List String) (columns : Nat) (textClass : TextClass) :
    Acts f (recordCells a cells columns textClass) := by
  refine .bind (.each fun cell r => ?_) fun _ => .pure _
  split
  · refine .bind (.ofComputed _) fun width => .bind (.ofComputed _) fun height => ?_
    refine .get_bind (fun b b' h => ?_) fun b => .bind (record_acts hdraws _) fun _ => .pure _
    simp only [h.lineNumber]
  · exact .pure _

theorem textBlock_acts (a : Area) (cells : List String) (columns : Nat) (textClass : TextClass) :
    Acts f (textBlock a cells columns textClass) :=
  .bind (recordCells_acts hdraws a cells columns textClass) fun _ => .ofComputed _

theorem shapeText_acts (a : Area) (text : String) (textClass : TextClass) : Acts f (shapeText a text textClass) := by
  rw [shapeText]
  split
  · exact .pure _
  · exact .bind (textBlock_acts hdraws _ _ _ _) fun _ => .pure _

end

theorem outline_acts (points : List Point) : Acts f (outline command points) := by
  rw [outline]
  split
  · refine .get_bind (fun b b' h => ?_) fun b => .ofComputed _
    simp only [h.fill]
  · exact .throw _

/-- A rectangle in the fill colour. -/
theorem rectangle_bind {α : Type} {a : Area} {radius : Option Binary64} {k : Element → Work α}
    (hk : ∀ e, Acts f (k e)) :
    Acts f (MonadState.get >>= fun b : Board => ofComputed (Drawing.rectangle a b.fill radius) >>= k) := by
  refine .get_bind (fun b b' h => ?_) fun b => .bind (.ofComputed _) hk
  simp only [h.fill]

/-- A shape looks up its two corners and adds labels. -/
theorem ShapeCommand.draw_acts {s : ShapeCommand} (hdraws : f.draws = true) (hfirst : s.first ∈ f.uses)
    (hsecond : s.second ∈ f.uses) : Acts f s.draw := by
  have hcorners {command : String} {k : Bounds → Work Fragment} (hk : ∀ b, Acts f (k b)) :
      Acts f (pins >>= fun t => of (Meaning.corners t command s.first s.second) >>= k) :=
    .corners_bind hfirst hsecond hk
  have htext (a : Area) (textClass : TextClass) (figure : Element) :
      Acts f (do return figure :: (← shapeText a s.text textClass)) :=
    .bind (shapeText_acts hdraws a s.text textClass) fun _ => .pure _
  rw [draw]
  split
  · exact hcorners fun b => rectangle_bind fun e => htext _ _ _
  · exact hcorners fun b => rectangle_bind fun e => htext _ _ _
  · refine hcorners fun b => .bind (.of _) fun columns => rectangle_bind fun e => ?_
    split
    · exact .pure _
    · exact .bind (.of _) fun cells => .bind (textBlock_acts hdraws _ _ _ _) fun _ => .pure _
  · exact hcorners fun b => rectangle_bind fun e => htext _ _ _
  · exact hcorners fun b => .bind (outline_acts _) fun e => htext _ _ _
  · exact .bind (.of _) fun skew => hcorners fun b => .bind (outline_acts _) fun e => htext _ _ _
  · exact .bind (.of _) fun top => .bind (.of _) fun bottom => hcorners fun b => .bind (outline_acts _) fun e =>
      htext _ _ _
  · exact .bind (.of _) fun side => hcorners fun b => .bind (outline_acts _) fun e => htext _ _ _

/-! ## Drawing lines -/

theorem nextLineId_acts (hcounts : f.counts = true) : Acts f nextLineId := by
  intro b b' h
  refine .ok { lines := 1 } ("curve_" ++ Nat.repr b.lineCounter) ?_ ?_ ?_
  · refine ⟨by simp, fun _ => rfl, fun h => ?_, fun _ => ⟨rfl, rfl, rfl⟩⟩
    rw [hcounts] at h
    cases h
  · simp [Board.apply]
    rfl
  · rw [← h.lineCounter hcounts]
    simp [Board.apply]
    rfl

/-- A line looks up its two pins, uses up an identifier, and adds a label. -/
theorem LineCommand.draw_acts {l : LineCommand} (hdraws : f.draws = true) (hcounts : f.counts = true)
    (hstart : l.start ∈ f.uses) (hfinish : l.finish ∈ f.uses) : Acts f l.draw := by
  refine .pin_bind hstart fun start => .pin_bind hfinish fun finish => ?_
  generalize orient l.kind.flipped start finish = path
  obtain ⟨first, last, rightToLeft⟩ := path
  refine .bind (nextLineId_acts hcounts) fun id => .get_bind (fun b b' h => ?_) fun b => ?_
  · simp only [h.stroke]
  refine .bind (.ofComputed _) fun path => ?_
  split
  · exact .pure _
  · refine .get_bind (fun b b' h => ?_) fun b => .bind (record_acts hdraws _) fun _ => .pure _
    simp only [h.lineNumber]

/-! ## Shapes that set their own pins -/

theorem requirePositive_acts (dimension : String) (x : Binary64) : Acts f (requirePositive command dimension x) := by
  rw [requirePositive]
  split
  · exact .bind (.ofComputed _) fun _ => .throw _
  · exact .pure _

theorem placeAround_acts (hsets : ∀ pin ∈ autoNames name, pin ∈ f.sets) (a : Area) :
    Acts f (placeAround command name a) :=
  .forM fun _ hentry => place_acts (hsets _ (List.mem_map_of_mem hentry)) _

theorem pushOut_acts (huses : ∀ pin ∈ autoNames name, pin ∈ f.uses) (hsets : ∀ pin ∈ autoNames name, pin ∈ f.sets)
    (side : Side) (a : Area) : Acts f (pushOut command name side a) := by
  have hpin := pinSuffix_mem name side
  refine .pins_bind (fun t t' h => ?_) fun t => ?_
  · simp only [h _ (huses _ hpin)]
  · split
    · exact .throw _
    · refine shift_acts ?_ _ _
      simpa using hsets _ hpin

namespace AutoCommand

variable {c : AutoCommand}

/-- The pins around the rectangle are set, and one of them may be looked up after that. -/
theorem setPins_acts (huses : ∀ pin ∈ autoNames c.name, pin ∈ f.uses)
    (hsets : ∀ pin ∈ autoNames c.name, pin ∈ f.sets) : Acts f c.setPins := by
  refine .bind (.of _) fun x => .bind (.of _) fun y => .bind (.of _) fun width => .bind (.of _) fun height => ?_
  refine .bind (requirePositive_acts _ _) fun _ => .bind (requirePositive_acts _ _) fun _ => .bind (.of _) fun side => ?_
  refine .bind (placeAround_acts hsets _) fun _ => ?_
  split
  · exact pushOut_acts huses hsets _ _
  · exact .pure _

/-- The corners of the shape are two of the pins. -/
theorem corners_of_ofWords {s : ShapeCommand} (hc : c.IsSound)
    (h : ShapeCommand.ofWords c.kind c.shapeWords = some s) :
    s.first = c.name ++ "_tl" ∧ s.second = c.name ++ "_br" := by
  obtain ⟨kind, name, x, y, width, height, parameters, rest⟩ := c
  have hlen := hc.parameters
  cases kind with
  | box | smallBox | pill | hex =>
    obtain rfl := List.length_eq_zero_iff.1 hlen
    cases h
    exact ⟨rfl, rfl⟩
  | table | tiltBox | boxOut | boxIn =>
    obtain ⟨parameter, rfl⟩ := List.length_eq_one_iff.1 hlen
    cases h
    exact ⟨rfl, rfl⟩
  | trapBox =>
    obtain ⟨top, bottom, rfl⟩ := List.length_eq_two.1 hlen
    cases h
    exact ⟨rfl, rfl⟩

theorem draw_acts (hc : c.IsSound) (hdraws : f.draws = true) (huses : ∀ pin ∈ autoNames c.name, pin ∈ f.uses)
    (hsets : ∀ pin ∈ autoNames c.name, pin ∈ f.sets) : Acts f c.draw := by
  obtain ⟨s, hs, -, -⟩ := ofWords_shapeWords hc
  obtain ⟨hfirst, hsecond⟩ := corners_of_ofWords hc hs
  rw [draw, shape_eq hc hs]
  refine .bind (setPins_acts huses hsets) fun _ => ShapeCommand.draw_acts hdraws ?_ ?_
  · rw [hfirst]
    exact huses _ (by simp [autoNames, autoPins])
  · rw [hsecond]
    exact huses _ (by simp [autoNames, autoPins])

end AutoCommand

/-! ## All commands -/

/-- What a command looks up and changes. -/
def Command.footprint : Command → Footprint
  | .pin name _ _ => { sets := [name] }
  | .offset name source _ _ => { uses := [source], sets := [name] }
  | .split name first second | .corner name first second => { uses := [first, second], sets := [name] }
  | .project name a b target => { uses := [a, b, target], sets := [name] }
  | .move _ _ group | .reset group => { uses := group, sets := group }
  | .moveTo _ base group => { uses := base :: group, sets := group }
  | .moveOver base reference group => { uses := base :: reference :: group, sets := group }
  | .translate _ _ | .setFill _ | .setStroke _ => { styles := true }
  | .shape s => { uses := [s.first, s.second], draws := true }
  | .auto c => { uses := autoNames c.name, sets := autoNames c.name, draws := true }
  | .line l => { uses := [l.start, l.finish], draws := true, counts := true }

theorem change_styles_acts {g : Board → Board} (e : Change) (hpins : e.pins = []) (hlabels : e.labels = [])
    (hlines : e.lines = 0) (h : ∀ b, g b = b.apply e) : Acts { styles := true } (modify g : Work Unit) := by
  refine .change e ⟨?_, fun _ => hlabels, fun _ => hlines, fun h => by cases h⟩ h
  simp [hpins]

theorem Command.run_acts {c : Command} (hc : c.IsSound) : Acts c.footprint c.run := by
  have hquiet {f : Footprint} {w : Work Unit} (h : Acts f w) : Acts f (w >>= fun _ => pure ([] : Fragment)) :=
    h.bind fun _ => .pure _
  have hmem {x : String} {xs : List String} : x ∈ x :: xs := List.mem_cons_self
  have hall (xs : List String) : ∀ x ∈ xs, x ∈ xs := fun _ h => h
  cases c with
  | pin name x y => exact hquiet (Placement.pin_acts hmem x y)
  | offset name source dx dy => exact hquiet (Placement.offset_acts hmem hmem dx dy)
  | split name first second => exact hquiet (Placement.split_acts hmem (by simp [footprint]) hmem)
  | corner name first second => exact hquiet (Placement.corner_acts hmem (by simp [footprint]) hmem)
  | project name a b target =>
    exact hquiet (Placement.project_acts hmem (by simp [footprint]) (by simp [footprint]) hmem)
  | move dx dy group => exact hquiet (Placement.move_acts (hall group) (hall group) dx dy)
  | moveTo anchor base group =>
    exact hquiet (Placement.moveTo_acts (fun _ h => List.mem_cons_of_mem _ h) (hall group) anchor hmem)
  | moveOver base reference group =>
    refine hquiet (Placement.moveOver_acts (fun _ h => ?_) (hall group) hmem (by simp [footprint]))
    exact List.mem_cons_of_mem _ (List.mem_cons_of_mem _ h)
  | reset group => exact hquiet (Placement.reset_acts (hall group) (hall group))
  | translate x y =>
    refine hquiet (.bind (.of _) fun x => .bind (.of _) fun y => ?_)
    exact change_styles_acts { offset := some ⟨x, y⟩ } rfl rfl rfl fun b => by simp [Board.apply]
  | setFill colour =>
    exact hquiet (change_styles_acts { fill := some colour } rfl rfl rfl fun b => by simp [Board.apply])
  | setStroke colour =>
    exact hquiet (change_styles_acts { stroke := some colour } rfl rfl rfl fun b => by simp [Board.apply])
  | shape s => exact ShapeCommand.draw_acts rfl hmem (by simp [footprint])
  | auto c => exact AutoCommand.draw_acts hc rfl (hall _) (hall _)
  | line l => exact LineCommand.draw_acts rfl rfl hmem (by simp [footprint])

/-! ## Lines of a program -/

/-- A line with a command has few enough words, the first of which is the verb. -/
theorem Command.ofLine_words {line : String} {verb : Verb} {c : Command} (hverb : verbOf line = some verb)
    (h : Command.ofLine line = .ok c) :
    ∃ first words, Text.tokens line = first :: words ∧ words.length + 1 < maxCapacity ∧
      Command.ofWords verb words = some c := by
  rw [Command.ofLine_eq] at h
  rw [verbOf] at hverb
  split at h
  next => cases h
  next hlt =>
    cases htokens : Text.tokens line with
    | nil => exact absurd htokens (tokens_ne_nil line)
    | cons first words =>
      rw [htokens] at h hverb hlt
      have hkeyword : Verb.ofKeyword? (Text.lowercase first) = some verb := hverb
      rw [Command.ofTokens, hkeyword] at h
      simp only [Verb.parse] at h
      cases hwords : Command.ofWords verb words with
      | none =>
        rw [hwords] at h
        cases h
      | some c' =>
        rw [hwords] at h
        cases h
        exact ⟨first, words, rfl, Nat.lt_of_not_le hlt, hwords⟩

/-- What the command on a line looks up and changes; nothing if there is none. -/
def footprintOf (line : String) : Footprint :=
  match Command.ofLine line with
  | .ok c => c.footprint
  | .error _ => {}

/-- The board when the line with a number is carried out. -/
def Board.onLine (b : Board) (number : Nat) : Board := { b with lineNumber := number }

theorem executeAt_eq (number : Nat) (line : String) (b : Board) :
    executeAt number line b = execute line (b.onLine number) :=
  bind_of_ok rfl

theorem footprintOf_ok {line : String} {c : Command} (h : Command.ofLine line = .ok c) :
    footprintOf line = c.footprint := by
  unfold footprintOf
  rw [h]

/-- A line keeps to the footprint of its command. -/
theorem execute_acts (line : String) : Acts (footprintOf line) (execute line) := by
  refine .of_bind fun c hc => ?_
  rw [footprintOf_ok hc]
  exact Command.run_acts (Command.ofLine_spec hc).1

end Pinboard
