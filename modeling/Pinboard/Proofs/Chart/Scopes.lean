import Pinboard.Proofs.Chart.Offsets
import Pinboard.Proofs.Chart.Settings
import Pinboard.Proofs.Drawing.Colours
import Pinboard.Proofs.Text.Spacing

/-!
# How far colours and offsets reach

A colour reaches from the line that sets it to the next one that sets or clears it, and the offset from the line that
sets it to the next one that does. Main statement: what a line of a program draws has the colours that the latest lines
before it have set; the pins that it sets at two coordinates change with the offset on another line only if that is the
latest line before it that sets the offset; and pins that are derived from others, or moved, do not change with it at
all (`settings_reach`).
-/

namespace Pinboard

/-! ## Colours -/

section
variable {program line : String} {number : Nat} {setting clearing : Verb}

/-- A line of a program sets no empty colour. -/
theorem colourSet_ne_empty (h : (number, line) ∈ commandLines program) :
    colourSet setting clearing line ≠ some (some "") := by
  obtain ⟨-, hline⟩ := mem_numberLines (List.mem_filter.1 h).1
  obtain ⟨raw, -, rfl⟩ := Option.map_eq_some_iff.1 hline
  intro hset
  unfold colourSet at hset
  split at hset
  · have hword : (Text.tokens (Text.strip raw)).tail[0]? = some "" := by
      rw [List.getElem?_tail]
      exact Option.some.inj hset
    exact Text.tokens_strip_ne_empty (List.mem_of_getElem? hword) rfl
  · split at hset <;> cases hset

theorem latest_colourSet_ne_empty {lines : List (Nat × String)} (h : ∀ line ∈ lines, line ∈ commandLines program) :
    latest (colourSet setting clearing) none lines ≠ some "" := by
  intro hempty
  have hne : latest (colourSet setting clearing) none lines ≠ none := by
    rw [hempty]
    nofun
  obtain ⟨line, hmem, hset⟩ := exists_of_latest hne
  rw [hempty] at hset
  exact colourSet_ne_empty (h line hmem) hset

end

section
variable {b b' : Board} {number : Nat} {line : String} {fragment : Fragment}

/-- What a line draws has the colours of the board. -/
theorem executeAt_isPainted (hfill : b.fill ≠ some "") (hstroke : b.stroke ≠ some "")
    (h : executeAt number line b = .ok fragment b') : ∀ e ∈ elementsOf fragment, e.IsPainted b.fill b.stroke := by
  rw [executeAt_eq] at h
  obtain ⟨c, hc, hrun⟩ := Work.of_bind_ok h
  rw [elementsOf, List.forall_mem_flatMap]
  have hpaints : Paints (b.onLine number).fill fun figure => ∀ e ∈ figure.elements, e.IsPainted b.fill b.stroke :=
    ⟨Drawing.rectangle_isPainted hfill, Drawing.polygon_isPainted hfill, Drawing.textBlock_isPainted⟩
  by_cases hcounts : c.footprint.counts = false
  · exact Command.run_paints hpaints (Command.ofLine_spec hc).1 hcounts hrun
  · cases c with
    | line l =>
      obtain ⟨start, finish, -, -, hdraw⟩ := l.exists_drawWith hrun
      obtain ⟨first, last, style, path, hpath, hends⟩ := l.drawWith_ok hdraw
      have hpainted : ∀ e ∈ path.elements, e.IsPainted b.fill b.stroke := Drawing.linePath_isPainted hstroke hpath
      rcases hends with ⟨-, rfl, -⟩ | ⟨-, rfl, -⟩
      · exact List.forall_mem_singleton.2 hpainted
      · exact List.forall_mem_cons.2 ⟨hpainted, List.forall_mem_singleton.2 (Drawing.lineText_isPainted _ _ _)⟩
    | _ => exact absurd rfl hcounts

/-- A colour is given in a style only. -/
theorem executeAt_plain (h : executeAt number line b = .ok fragment b') :
    ∀ e ∈ elementsOf fragment, e.attribute? "fill" = none ∧ e.attribute? "stroke" = none := by
  have hforms : ∀ e ∈ fragment, e.HasForms (shapeForms ++ (pathForms ++ lineTextForms)) := by
    rcases executeAt_fragment h with ⟨-, hline, -⟩ | ⟨-, hshape, -⟩
    · exact fun e he => (hline.forms e he).mono (List.subset_append_right _ _)
    · exact fun e he => (hshape e he).mono (List.subset_append_left _ _)
  intro e he
  exact ⟨attribute?_eq_none_of_mem hforms (by decide) he, attribute?_eq_none_of_mem hforms (by decide) he⟩

end

/-! ## The offset -/

/-- Some lines and others are the same but for one, which sets the offset in both. -/
def DifferInOffset (place : Nat) (lines lines' : List (Nat × String)) : Prop :=
  ∃ number line line', lines[place]? = some (number, line) ∧ verbOf line = some .translate ∧
    verbOf line' = some .translate ∧ lines' = lines.set place (number, line')

/-- One line is the latest before another that sets the offset. -/
structure IsLatestOffset (lines : List (Nat × String)) (place i : Nat) : Prop where
  before : place < i
  latest : ∀ k line, place < k → k < i → lines[k]? = some line → verbOf line.2 ≠ some .translate

/-- The point of a pin behind the first of some lines. -/
def pointBehind (lines : List (Nat × String)) (count : Nat) (name : String) : Option Point :=
  (Board.session (lines.take count)).pins.point? name

section
variable {α : Type} {sets : String → Option α} {lines : List (Nat × String)} {line : Nat × String} {place k : Nat}

/-- Another line in front of one that sets something makes no difference behind that one. -/
theorem latest_set (hline : lines[k]? = some line) (hsets : sets line.2 ≠ none) (hlt : place < k)
    (other : Nat × String) (initial : α) : latest sets initial (lines.set place other) = latest sets initial lines := by
  have hmem : line ∈ lines.drop (place + 1) := by
    refine List.mem_of_getElem? (i := k - (place + 1)) ?_
    rw [List.getElem?_drop, Nat.add_sub_cancel' hlt, hline]
  have hdrop : (lines.set place other).drop (place + 1) = lines.drop (place + 1) :=
    List.drop_set_of_lt (Nat.lt_succ_self place)
  calc latest sets initial (lines.set place other)
      = latest sets (latest sets initial ((lines.set place other).take (place + 1))) (lines.drop (place + 1)) := by
        rw [← hdrop, ← latest_append, List.take_append_drop]
    _ = latest sets (latest sets initial (lines.take (place + 1))) (lines.drop (place + 1)) :=
        latest_eq_of_mem hmem hsets _ _
    _ = latest sets initial lines := by rw [← latest_append, List.take_append_drop]

end

section
variable {program other : String} {chart chart' : Chart} {i place : Nat} {line : Nat × String}

/-- Each line of a program that is carried out is drawn. -/
theorem exists_drawn (h : interpret program = .ok chart) (hline : (commandLines program)[i]? = some line) :
    ∃ d, (drawnBy program)[i]? = some d ∧ (d.number, d.line) = line := by
  rw [← (interpret_drawn h).1, List.getElem?_map] at hline
  exact Option.map_eq_some_iff.1 hline

/-- A line that is not the latest to set the offset may set it to anything. -/
theorem latest_offset_eq (h : interpret program = .ok chart)
    (hdiffer : DifferInOffset place (commandLines program) (commandLines other))
    (hnot : ¬ IsLatestOffset (commandLines program) place i) (initial : Point) :
    latest offsetSet initial ((commandLines other).take i) =
      latest offsetSet initial ((commandLines program).take i) := by
  obtain ⟨number, t, t', hplace, hverb, hverb', hlines⟩ := hdiffer
  rw [hlines]
  by_cases hlt : place < i
  · obtain ⟨k, between, hk, hki, hbetween, hsets⟩ :
        ∃ k between, place < k ∧ k < i ∧ (commandLines program)[k]? = some between ∧
          verbOf between.2 = some .translate := by
      by_contra hnone
      refine hnot ⟨hlt, fun k between hk hki hbetween hverb => ?_⟩
      exact hnone ⟨k, between, hk, hki, hbetween, hverb⟩
    obtain ⟨d, hd, rfl⟩ := exists_drawn h hbetween
    have hoffset := offsetSet_ne_none hsets (Board.drawn_getElem? hd).2
    rw [List.take_set]
    exact latest_set (by rw [List.getElem?_take_of_lt hki, hbetween]) hoffset hk _ _
  · rw [List.take_set_of_le (Nat.le_of_not_lt hlt)]

/-- A change of the offset reaches the pins that are set by it up to the next line that sets the offset. -/
theorem isLatestOffset_of_pointBehind_ne {name : String} (h : interpret program = .ok chart)
    (h' : interpret other = .ok chart') (hdiffer : DifferInOffset place (commandLines program) (commandLines other))
    (hline : (commandLines program)[i]? = some line)
    (hadds : ∃ verb, verbOf line.2 = some verb ∧ verb.addsOffset = true) (hname : name ∈ createdNames line.2)
    (hne : pointBehind (commandLines other) (i + 1) name ≠ pointBehind (commandLines program) (i + 1) name) :
    IsLatestOffset (commandLines program) place i := by
  by_contra hnot
  have hoffset := latest_offset_eq h hdiffer hnot
  obtain ⟨verb, hverb, hadds⟩ := hadds
  have hline' : (commandLines other)[i]? = some line := by
    obtain ⟨number, t, t', hplace, ht, ht', hlines⟩ := hdiffer
    have hother : place ≠ i := by
      rintro rfl
      cases hplace.symm.trans hline
      cases ht.symm.trans hverb
      cases hadds
    rw [hlines, List.getElem?_set_ne hother, hline]
  obtain ⟨d, hd, rfl⟩ := exists_drawn h hline
  obtain ⟨d', hd', hsame⟩ := exists_drawn h' hline'
  obtain ⟨hnumber, hsource⟩ := Prod.mk.inj hsame
  have hrun := (Board.drawn_getElem? hd).2
  have hrun' := (Board.drawn_getElem? hd').2
  obtain ⟨-, -, hlatest⟩ := Board.drawn_latest hd
  obtain ⟨-, -, hlatest'⟩ := Board.drawn_latest hd'
  rw [hsource] at hrun'
  refine hne (executeAt_offset hverb hadds hrun hrun' ?_ name hname)
  rw [hlatest, hlatest', hoffset]

/-- What the lines of a program draw has the colours of the latest lines before them, as far as these set any. The pins
that a line sets by the offset change with the offset of another line only if that is the latest one before it; and
pins that are derived from others, or moved, do not change with the offset. -/
theorem settings_reach (h : interpret program = .ok chart) :
    ((drawnBy program).map (fun d => (d.number, d.line)) = commandLines program ∧
      chart.fragments = fragmentsOf (drawnBy program) ∧
        ∀ i d, (drawnBy program)[i]? = some d → ∀ e ∈ elementsOf d.fragment,
          e.IsPainted (latest fillSet none ((commandLines program).take i))
              (latest strokeSet none ((commandLines program).take i)) ∧
            e.attribute? "fill" = none ∧ e.attribute? "stroke" = none) ∧
      (∀ other chart' place i line name, interpret other = .ok chart' →
        DifferInOffset place (commandLines program) (commandLines other) → (commandLines program)[i]? = some line →
          (∃ verb, verbOf line.2 = some verb ∧ verb.addsOffset = true) → name ∈ createdNames line.2 →
            pointBehind (commandLines other) (i + 1) name ≠ pointBehind (commandLines program) (i + 1) name →
              IsLatestOffset (commandLines program) place i) ∧
        ∀ number line verb b b' c fragment, verbOf line = some verb → verb.places = true → verb ≠ .pin →
          executeAt number line b = .ok fragment b' → c.pins = b.pins →
            executeAt number line c = .ok fragment { c with pins := b'.pins, lineNumber := number } := by
  obtain ⟨hlines, -, hfragments⟩ := interpret_drawn h
  refine ⟨⟨hlines, hfragments, fun i d hd e he => ?_⟩, ?_, ?_⟩
  · have hrun := (Board.drawn_getElem? hd).2
    obtain ⟨hfill, hstroke, -⟩ := Board.drawn_latest hd
    have hmem : ∀ line ∈ (commandLines program).take i, line ∈ commandLines program :=
      fun line hline => List.mem_of_mem_take hline
    have hpainted := executeAt_isPainted (hfill ▸ latest_colourSet_ne_empty hmem)
      (hstroke ▸ latest_colourSet_ne_empty hmem) hrun e he
    rw [hfill, hstroke] at hpainted
    exact ⟨hpainted, executeAt_plain hrun e he⟩
  · intro other chart' place i line name h' hdiffer hline hadds hname hne
    exact isLatestOffset_of_pointBehind_ne h h' hdiffer hline hadds hname hne
  · intro number line verb b b' c fragment hverb hplaces hpin hrun hpins
    exact executeAt_pins hverb hplaces hpin hrun hpins

end

/-- A box in a colour and a pin, with an offset for each of the two. -/
def twoGroups (offset : String) : String :=
  "Fill abc\nGroup 1 0\nAutoBox s 0 0 9 9\nGroup " ++ offset ++ " 0\nPin a 0 0"

theorem settings_reach_two_groups :
    ∃ chart chart', interpret (twoGroups "2") = .ok chart ∧ interpret (twoGroups "3") = .ok chart' ∧
      (∃ d figure rest, (drawnBy (twoGroups "2"))[2]? = some d ∧ elementsOf d.fragment = figure :: rest ∧
        figure.tag = "rect" ∧ figure.attribute? "style" = some "fill: #abc") ∧
      pointBehind (commandLines (twoGroups "3")) 5 "a" ≠ pointBehind (commandLines (twoGroups "2")) 5 "a" ∧
        IsLatestOffset (commandLines (twoGroups "2")) 3 4 := by
  have hruns : (interpret (twoGroups "2")).isOk = true ∧ (interpret (twoGroups "3")).isOk = true := by decide +kernel
  cases h : interpret (twoGroups "2") with
  | error fault =>
    rw [h] at hruns
    cases hruns.1
  | ok chart =>
    cases h' : interpret (twoGroups "3") with
    | error fault =>
      rw [h'] at hruns
      cases hruns.2
    | ok chart' =>
      obtain ⟨⟨-, -, hcolours⟩, hoffset, -⟩ := settings_reach h
      have hbox : (((drawnBy (twoGroups "2"))[2]?).bind fun d => (elementsOf d.fragment).head?).map Element.tag =
          some "rect" := by decide +kernel
      obtain ⟨figure, hfigure, htag⟩ := Option.map_eq_some_iff.1 hbox
      obtain ⟨d, hd, hhead⟩ := Option.bind_eq_some_iff.1 hfigure
      obtain ⟨rest, hrest⟩ := List.head?_eq_some_iff.1 hhead
      have hstyle := (hcolours 2 d hd figure (List.mem_of_mem_head? hhead)).1.figure (.inl htag)
      have hfill : latest fillSet none ((commandLines (twoGroups "2")).take 2) = some "abc" := by decide +kernel
      rw [hfill] at hstyle
      have hdiffer : DifferInOffset 3 (commandLines (twoGroups "2")) (commandLines (twoGroups "3")) :=
        ⟨4, "Group 2 0", "Group 3 0", by decide +kernel, by decide +kernel, by decide +kernel, by decide +kernel⟩
      have hpin : (commandLines (twoGroups "2"))[4]? = some (5, "Pin a 0 0") := by decide +kernel
      have hadds : ∃ verb, verbOf "Pin a 0 0" = some verb ∧ verb.addsOffset = true := ⟨.pin, by decide +kernel, rfl⟩
      have hname : "a" ∈ createdNames "Pin a 0 0" := by decide +kernel
      have hne :
          pointBehind (commandLines (twoGroups "3")) 5 "a" ≠ pointBehind (commandLines (twoGroups "2")) 5 "a" := by
        decide +kernel
      exact ⟨chart, chart', rfl, rfl, ⟨d, figure, rest, hd, hrest, htag, hstyle⟩, hne,
        hoffset _ chart' 3 4 _ "a" h' hdiffer hpin hadds hname hne⟩

end Pinboard
