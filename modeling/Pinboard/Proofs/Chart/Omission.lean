import Pinboard.Proofs.Chart.Commuting
import Pinboard.Proofs.Chart.Drawn
import Pinboard.Proofs.Chart.Outcome
import Pinboard.Proofs.Text.Lines

/-!
# A program without some of its drawing lines

What a line draws between pins has no part in what the lines after it do. Main statement: when lines that
draw between pins are left blank, a program that is carried out still is, with the same pins, colours, offset
and canvas, and its other lines draw what they drew; only the identifiers of the lines between pins are counted
anew (`interpret_blanked`). The two runs are compared step by step: their boards have the same layout
(`Board.SameLayout`) and differ in their labels and in the number of the next identifier.
-/

namespace Pinboard

open Work

/-! ## Counting identifiers anew -/

/-- A fragment with the identifier of a given number, if it has one at all. -/
def renumber (count : Nat) (fragment : Fragment) : Fragment :=
  if isNumbered fragment then fragment.map (.withId (lineId count)) else fragment

/-- The number of the next identifier after a fragment. -/
def countOn (count : Nat) (fragment : Fragment) : Nat := if isNumbered fragment then count + 1 else count

/-- Fragments with identifiers that are counted from a given number on. -/
def renumberFrom (count : Nat) : List Fragment → List Fragment
  | [] => []
  | fragment :: rest => renumber count fragment :: renumberFrom (countOn count fragment) rest

@[simp]
theorem isEmpty_renumber (count : Nat) (fragment : Fragment) : (renumber count fragment).isEmpty = fragment.isEmpty := by
  unfold renumber
  split <;> simp

/-! ## Boards with the same layout -/

/-- Two boards on which the same lines draw the same, but for identifiers. -/
structure Board.SameLayout (b r : Board) : Prop where
  pins : r.pins = b.pins
  fill : r.fill = b.fill
  stroke : r.stroke = b.stroke
  offset : r.offset = b.offset

variable {b b' r : Board} {number : Nat} {line : String} {fragment : Fragment}

theorem Board.SameLayout.apply (h : b.SameLayout r) (e : Change) : (b.apply e).SameLayout (r.apply e) := by
  obtain ⟨hpins, hfill, hstroke, hoffset⟩ := h
  exact ⟨by simp [Board.apply, hpins], by simp [Board.apply, hfill], by simp [Board.apply, hstroke],
    by simp [Board.apply, hoffset]⟩

theorem Board.SameLayout.onLine (h : b.SameLayout r) (number : Nat) : (b.onLine number).SameLayout (r.onLine number) :=
  ⟨h.pins, h.fill, h.stroke, h.offset⟩

theorem Board.SameLayout.agrees (h : b.SameLayout r) {f : Footprint} (hcounts : f.counts = false)
    (hnumber : r.lineNumber = b.lineNumber) : Board.Agrees f b r := by
  refine ⟨?_, h.fill, h.stroke, h.offset, hnumber, ?_⟩
  · intro name _
    rw [h.pins]
  · intro hc
    rw [hcounts] at hc
    cases hc

/-! ## Lines that stay -/

/-- What a line has done to one board it has done to another one with the same layout, counting on there. -/
structure DrawsAlike (b r : Board) (fragment : Fragment) (b' r' : Board) : Prop where
  layout : b'.SameLayout r'
  labels : r'.labels = r.labels ++ b'.labels.drop b.labels.length
  lineCounter : r'.lineCounter = countOn r.lineCounter fragment

theorem LineCommand.draw_alike {l : LineCommand} (hsame : b.SameLayout r) (hnumber : r.lineNumber = b.lineNumber)
    (h : l.draw b = .ok fragment b') :
    ∃ r', l.draw r = .ok (renumber r.lineCounter fragment) r' ∧ DrawsAlike b r fragment b' r' := by
  obtain ⟨start, finish, hstart, hfinish, hdraw⟩ := l.exists_drawWith h
  obtain ⟨hrenamed, hnumbered, -⟩ := l.drawWith_renamed hdraw (lineId r.lineCounter)
  have hnext : Board.SameLayout { b with lineCounter := b.lineCounter + 1 }
      { r with lineCounter := r.lineCounter + 1 } := ⟨hsame.pins, hsame.fill, hsame.stroke, hsame.offset⟩
  obtain ⟨e, he, rfl, hother⟩ := l.drawWith_acts.alike_of_ok hrenamed (hnext.agrees rfl hnumber)
  rw [← hsame.pins] at hstart hfinish
  refine ⟨_, ?_, hnext.apply e, ?_, ?_⟩
  · rw [draw_between hstart hfinish, renumber, if_pos hnumbered]
    exact hother
  · simp [Board.apply]
  · simp [Board.apply, countOn, hnumbered, he.lines rfl]

theorem Command.run_alike {c : Command} (hc : c.IsSound) (hsame : b.SameLayout r)
    (hnumber : r.lineNumber = b.lineNumber) (h : c.run b = .ok fragment b') :
    ∃ r', c.run r = .ok (renumber r.lineCounter fragment) r' ∧ DrawsAlike b r fragment b' r' := by
  by_cases hcounts : c.footprint.counts = false
  · have hunnumbered := isNumbered_eq_false (run_figures hc hcounts h)
    obtain ⟨e, he, rfl, hrun⟩ := (run_acts hc).alike_of_ok h (hsame.agrees hcounts hnumber)
    refine ⟨r.apply e, ?_, hsame.apply e, ?_, ?_⟩
    · rw [renumber, hunnumbered]
      exact hrun
    · simp [Board.apply]
    · simp [Board.apply, countOn, hunnumbered, he.lines hcounts]
  · cases c with
    | line l => exact l.draw_alike hsame hnumber h
    | _ => exact absurd rfl hcounts

/-- A line that is carried out on one board is so on every board with the same layout, and draws the same there
but for the number of its identifier. -/
theorem executeAt_alike (hsame : b.SameLayout r) (h : executeAt number line b = .ok fragment b') :
    ∃ r', executeAt number line r = .ok (renumber r.lineCounter fragment) r' ∧ DrawsAlike b r fragment b' r' := by
  rw [executeAt_eq] at h
  obtain ⟨c, hc, hrun⟩ := of_bind_ok h
  have hsound := (Command.ofLine_spec hc).1
  obtain ⟨r', hother, hlayout, hlabels, hcounter⟩ := Command.run_alike hsound (hsame.onLine number) rfl hrun
  refine ⟨r', ?_, hlayout, hlabels, hcounter⟩
  rw [executeAt_eq, execute_of_ok hc]
  exact hother

/-! ## Lines that are left out -/

theorem Command.footprint_of_draws {verb : Verb} {words : List String} {c : Command}
    (h : Command.ofWords verb words = some c) (hverb : verb.draws = true) :
    c.footprint.sets = [] ∧ c.footprint.styles = false := by
  revert h
  fun_cases Command.ofWords verb words <;> intro h
  case case15 | case17 =>
    obtain ⟨a, ha, rfl⟩ := Option.map_eq_some_iff.1 h
    exact ⟨rfl, rfl⟩
  case case18 => cases h
  all_goals cases hverb

/-- A line that draws between pins leaves the layout as it is. -/
theorem executeAt_sameLayout {verb : Verb} (hverb : verbOf line = some verb) (hdraws : verb.draws = true)
    (h : executeAt number line b = .ok fragment b') : b'.SameLayout b := by
  rw [executeAt_eq] at h
  obtain ⟨e, he, rfl, -⟩ := (execute_acts line).alike_of_ok h (.refl _ _)
  have hsets : (footprintOf line).sets = [] ∧ (footprintOf line).styles = false := by
    rcases footprintOf_cases hverb with hf | ⟨c, words, hf, hwords⟩
    · rw [hf]
      exact ⟨rfl, rfl⟩
    · rw [hf]
      exact Command.footprint_of_draws hwords hdraws
  obtain ⟨hnone, hstyles⟩ := hsets
  have hpins : e.pins = [] := by
    refine List.eq_nil_iff_forall_not_mem.2 fun pin hpin => ?_
    have hmem := he.pins pin hpin
    rw [hnone] at hmem
    cases hmem
  obtain ⟨hfill, hstroke, hoffset⟩ := he.styles hstyles
  exact ⟨by simp [Board.apply, Board.onLine, hpins], by simp [Board.apply, Board.onLine, hfill],
    by simp [Board.apply, Board.onLine, hstroke], by simp [Board.apply, Board.onLine, hoffset]⟩

theorem Board.SameLayout.trans {r' : Board} (h : b.SameLayout r) (h' : r.SameLayout r') : b.SameLayout r' :=
  ⟨h'.pins.trans h.pins, h'.fill.trans h.fill, h'.stroke.trans h.stroke, h'.offset.trans h.offset⟩

/-! ## Runs -/

/-- All lines but those with chosen numbers. -/
def others (chosen : Nat → Bool) (lines : List (Nat × String)) : List (Nat × String) :=
  lines.filter fun line => !chosen line.1

/-- What all lines draw but those with chosen numbers. -/
def drawnByOthers (chosen : Nat → Bool) (drawn : List Drawn) : List Drawn :=
  drawn.filter fun d => !chosen d.number

/-- A line draws between pins that are there already. -/
def DrawsOnly (line : String) : Prop := ∃ verb, verbOf line = some verb ∧ verb.draws = true

/-- Fragments that are not there do not count. -/
theorem renumberFrom_fragmentsOf_cons (count : Nat) (d : Drawn) (drawn : List Drawn) :
    renumberFrom count (fragmentsOf (d :: drawn)) =
      (if d.fragment.isEmpty then [] else [renumber count d.fragment]) ++
        renumberFrom (countOn count d.fragment) (fragmentsOf drawn) := by
  obtain ⟨number, line, fragment, labels⟩ := d
  cases fragment with
  | nil => simp [fragmentsOf, Drawn.isVisible, countOn, isNumbered]
  | cons element fragment => simp [fragmentsOf, Drawn.isVisible, renumberFrom]

/-- A run goes on without the lines that only draw. -/
theorem Chart.run_others {chart chart' small : Chart} {lines : List (Nat × String)} {chosen : Nat → Bool}
    (hsame : chart.board.SameLayout small.board)
    (hchosen : ∀ line ∈ lines, chosen line.1 = true → DrawsOnly line.2) (h : chart.run lines = .ok chart') :
    ∃ small', small.run (others chosen lines) = .ok small' ∧ chart'.board.SameLayout small'.board ∧
      small'.board.labels =
        small.board.labels ++ (drawnByOthers chosen (chart.board.drawn lines)).flatMap Drawn.labels ∧
      small'.fragments =
        small.fragments ++
          renumberFrom small.board.lineCounter (fragmentsOf (drawnByOthers chosen (chart.board.drawn lines))) := by
  induction lines generalizing chart small with
  | nil =>
    cases h
    exact ⟨small, rfl, hsame, by simp [Board.drawn, drawnByOthers], by
      simp [Board.drawn, drawnByOthers, fragmentsOf, renumberFrom]⟩
  | cons line lines ih =>
    obtain ⟨number, line⟩ := line
    obtain ⟨hline, hlines⟩ := List.forall_mem_cons.1 hchosen
    cases hok : executeAt number line chart.board with
    | error fault b' => cases (run_cons_of_error (step_of_error hok) lines).symm.trans h
    | ok fragment b' =>
      rw [run_cons_of_ok (step_of_ok hok)] at h
      rw [Board.drawn_cons_of_ok hok]
      by_cases hnumber : chosen number = true
      · obtain ⟨verb, hverb, hdraws⟩ := hline hnumber
        have hleft := (executeAt_sameLayout hverb hdraws hok).trans hsame
        obtain ⟨small', hrun, hlayout, hlabels, hfragments⟩ := ih hleft hlines h
        refine ⟨small', ?_, hlayout, ?_, ?_⟩
        · simpa [others, hnumber] using hrun
        · simpa [drawnByOthers, hnumber] using hlabels
        · simpa [drawnByOthers, hnumber] using hfragments
      · obtain ⟨r', hother, halike⟩ := executeAt_alike hsame hok
        have hstep : small.step (number, line) = _ := step_of_ok hother
        obtain ⟨small', hrun, hlayout, hlabels, hfragments⟩ := @ih _ ⟨r', _⟩ halike.layout hlines h
        refine ⟨small', ?_, hlayout, ?_, ?_⟩
        · have hkept : others chosen ((number, line) :: lines) = (number, line) :: others chosen lines := by
            simp [others, hnumber]
          rw [hkept, run_cons_of_ok hstep]
          exact hrun
        · rw [hlabels, halike.labels]
          simp [drawnByOthers, hnumber]
        · have hkept (d : Drawn) (drawn : List Drawn) (hd : d.number = number) :
              drawnByOthers chosen (d :: drawn) = d :: drawnByOthers chosen drawn := by
            simp [drawnByOthers, hd, hnumber]
          rw [hfragments, hkept _ _ rfl, renumberFrom_fragmentsOf_cons, halike.lineCounter, ← List.append_assoc]
          simp only [isEmpty_renumber]
          split <;> simp

/-! ## Programs -/

/-- A program with blank lines in the place of those with chosen numbers. -/
def IsBlanked (chosen : Nat → Bool) (program reduced : String) : Prop :=
  ∃ blank : Nat → String, (∀ i, Text.strip (blank i) = "") ∧
    Text.lines reduced = (Text.lines program).mapIdx fun i line => if chosen (i + 1) then blank i else line

theorem commandLines_numberLines (chosen : Nat → Bool) {blank : Nat → String}
    (hblank : ∀ i, Text.strip (blank i) = "") (first : Nat) (lines : List String) :
    (numberLines first (lines.mapIdx fun i line => if chosen (first + i) then blank i else line)).filter
        (fun line => isCommandLine line.2) =
      others chosen ((numberLines first lines).filter fun line => isCommandLine line.2) := by
  induction lines generalizing first blank with
  | nil => rfl
  | cons line lines ih =>
    have htail := @ih (fun i => blank (i + 1)) (fun i => hblank (i + 1)) (first + 1)
    simp only [Nat.add_assoc, Nat.add_comm 1] at htail
    rw [List.mapIdx_cons, numberLines, numberLines, List.filter_cons, htail, List.filter_cons]
    by_cases hchosen : chosen first = true
    · have hempty : ¬isCommandLine "" = true := by decide
      simp only [Nat.add_zero, if_pos hchosen, hblank, if_neg hempty]
      split <;> simp [others, hchosen]
    · simp only [Nat.add_zero, if_neg hchosen]
      split <;> simp [others, hchosen]

/-- The command lines of a program with lines left blank are its other ones. -/
theorem commandLines_of_isBlanked {program reduced : String} {chosen : Nat → Bool}
    (h : IsBlanked chosen program reduced) : commandLines reduced = others chosen (commandLines program) := by
  obtain ⟨blank, hblank, hlines⟩ := h
  have hcommands := commandLines_numberLines chosen hblank 1 (Text.lines program)
  simp only [Nat.add_comm 1] at hcommands
  rw [commandLines, hlines, hcommands]
  rfl

/-- Two charts have documents that show the same part of the plane. -/
def SameCanvas (chart chart' : Chart) : Prop :=
  ∃ document document' view, chart.document = .ok document ∧ chart'.document = .ok document' ∧
    document.attribute? "viewBox" = some view ∧ document'.attribute? "viewBox" = some view

theorem Document.viewBox_root (width height : Int) (elements : List Element) :
    (Document.root width height elements).attribute? "viewBox" = some (viewBox width height) := by
  simp [Document.root, Element.onLines, Element.attribute?, Element.attributes, List.lookup_cons]

theorem sameCanvas_of_pins {chart chart' : Chart} (hb : chart.board.IsFinite)
    (hpins : chart'.board.pins = chart.board.pins) : SameCanvas chart chart' := by
  obtain ⟨⟨width, height⟩, hsize⟩ := hb.exists_size
  refine ⟨Document.root width height chart.fragments.flatten, Document.root width height chart'.fragments.flatten,
    Document.viewBox width height, ?_, ?_, Document.viewBox_root _ _ _, Document.viewBox_root _ _ _⟩
  · rw [Chart.document, hsize]
    rfl
  · rw [Chart.document, hpins, hsize]
    rfl

/-- A program that is carried out is so with any of the lines that draw between pins left blank. It comes to the
same pins, colours, offset and canvas; it has the labels of the other lines, as they were, and their fragments,
with the identifiers counted from one on. -/
theorem interpret_blanked {program reduced : String} {chosen : Nat → Bool} {chart : Chart}
    (h : interpret program = .ok chart)
    (hchosen : ∀ line ∈ commandLines program, chosen line.1 = true → DrawsOnly line.2)
    (hreduced : IsBlanked chosen program reduced) :
    ((drawnBy program).map (fun d => (d.number, d.line)) = commandLines program ∧
      chart.board.labels = (drawnBy program).flatMap Drawn.labels ∧
        chart.fragments = fragmentsOf (drawnBy program)) ∧
    ∃ chart', interpret reduced = .ok chart' ∧ chart.board.SameLayout chart'.board ∧ SameCanvas chart chart' ∧
      chart'.board.labels = (drawnByOthers chosen (drawnBy program)).flatMap Drawn.labels ∧
        chart'.fragments = renumberFrom 1 (fragmentsOf (drawnByOthers chosen (drawnBy program))) := by
  have hdrawn : Chart.blank.board.drawn (commandLines program) = drawnBy program := rfl
  have hlabels : Chart.blank.board.labels = [] := rfl
  have hfragments : Chart.blank.fragments = [] := rfl
  have hcount : Chart.blank.board.lineCounter = 1 := rfl
  have hsame : Chart.blank.board.SameLayout Chart.blank.board := ⟨rfl, rfl, rfl, rfl⟩
  obtain ⟨chart', hrun, hlayout, hothers⟩ := Chart.run_others hsame hchosen h
  rw [hdrawn, hlabels, hfragments, hcount, List.nil_append, List.nil_append] at hothers
  have hcanvas := sameCanvas_of_pins (Chart.run_adds Board.start_isFinite h).1 hlayout.pins
  refine ⟨interpret_drawn h, chart', ?_, hlayout, hcanvas, hothers⟩
  rw [interpret, commandLines_of_isBlanked hreduced]
  exact hrun

/-- Without its third line, a line between pins, and its fourth, a box, a program has the label of its fifth line,
and the arrow on that line has the first identifier in place of the second. -/
theorem interpret_blanked_line_and_box :
    (drawnBy "Pin a 0 0\nPin b 9 9\nLine a b x\n Box a b y\nArrow b a z").flatMap
        (fun d => d.fragment.filterMap fun e => e.attribute? "id") = ["curve_1", "curve_2"] ∧
      ∃ chart', interpret "Pin a 0 0\nPin b 9 9\n\n \t\nArrow b a z" = .ok chart' ∧
        chart'.board.labels.map Label.text = ["z"] ∧ chart'.board.labels.map Label.line = [5] ∧
          chart'.fragments.map (fun f => f.filterMap fun e => e.attribute? "id") = [["curve_1"]] := by
  have hids : (drawnBy "Pin a 0 0\nPin b 9 9\nLine a b x\n Box a b y\nArrow b a z").flatMap
      (fun d => d.fragment.filterMap fun e => e.attribute? "id") = ["curve_1", "curve_2"] := by
    decide +kernel
  have hruns : (interpret "Pin a 0 0\nPin b 9 9\nLine a b x\n Box a b y\nArrow b a z").isOk = true := by
    decide +kernel
  have hlines : commandLines "Pin a 0 0\nPin b 9 9\nLine a b x\n Box a b y\nArrow b a z" =
      [(1, "Pin a 0 0"), (2, "Pin b 9 9"), (3, "Line a b x"), (4, "Box a b y"), (5, "Arrow b a z")] := by
    decide +kernel
  have hothers :
      let rest := drawnByOthers (fun n => n == 3 || n == 4)
        (drawnBy "Pin a 0 0\nPin b 9 9\nLine a b x\n Box a b y\nArrow b a z")
      (rest.flatMap Drawn.labels).map Label.text = ["z"] ∧ (rest.flatMap Drawn.labels).map Label.line = [5] ∧
        (renumberFrom 1 (fragmentsOf rest)).map (fun f => f.filterMap fun e => e.attribute? "id") = [["curve_1"]] := by
    decide +kernel
  refine ⟨hids, ?_⟩
  cases h : interpret "Pin a 0 0\nPin b 9 9\nLine a b x\n Box a b y\nArrow b a z" with
  | error fault =>
    rw [h] at hruns
    cases hruns
  | ok chart =>
    have hchosen : ∀ line ∈ commandLines "Pin a 0 0\nPin b 9 9\nLine a b x\n Box a b y\nArrow b a z",
        (line.1 == 3 || line.1 == 4) = true → DrawsOnly line.2 := by
      rw [hlines]
      intro line hline hnumber
      simp only [List.mem_cons, List.not_mem_nil, or_false] at hline
      rcases hline with rfl | rfl | rfl | rfl | rfl
      · cases hnumber
      · cases hnumber
      · exact ⟨.line ⟨false, false⟩, by decide +kernel, rfl⟩
      · exact ⟨.shape .box, by decide +kernel, rfl⟩
      · cases hnumber
    have hreduced : IsBlanked (fun n => n == 3 || n == 4)
        "Pin a 0 0\nPin b 9 9\nLine a b x\n Box a b y\nArrow b a z"
        "Pin a 0 0\nPin b 9 9\n\n \t\nArrow b a z" := by
      have hlines : Text.lines "Pin a 0 0\nPin b 9 9\n\n \t\nArrow b a z" =
          (Text.lines "Pin a 0 0\nPin b 9 9\nLine a b x\n Box a b y\nArrow b a z").mapIdx fun i line =>
            if (i + 1 == 3 || i + 1 == 4) then (if i = 3 then " \t" else "") else line := by
        decide +kernel
      refine ⟨fun i => if i = 3 then " \t" else "", fun i => ?_, hlines⟩
      show Text.strip (if i = 3 then " \t" else "") = ""
      split <;> decide +kernel
    obtain ⟨-, chart', hrun, -, -, hlabels, hfragments⟩ := interpret_blanked h hchosen hreduced
    refine ⟨chart', hrun, ?_⟩
    rw [hlabels, hfragments]
    exact hothers

end Pinboard
