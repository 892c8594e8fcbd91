import Mathlib.Tactic.Choose
import Pinboard.Proofs.Chart.Layout
import Pinboard.Proofs.Fit.Exactness
import Pinboard.Proofs.Text.Quoted

/-!
# The issues of a program in their order

With a measurer that gives every text a width (`Measurer.Measures`) the check comes to a verdict on every label
(`Fit.check_eq`), and its issues are those of the labels in their order (`Fit.checkProgram_eq`). The report of an issue
begins with the number of a line and is printable whatever its label says (`FitIssue.report_begins`,
`FitIssue.isPrintableText_report`). Main statement: that is the number of the line that drew the label, and from one
issue to the next it does not decrease (`Fit.exists_drawn_of_mem`, `Fit.issues_pairwise`).
-/

namespace Pinboard

/-! ## The report of an issue -/

namespace FitIssue

theorem report_begins (i : FitIssue) : ∃ rest, i.report = "line " ++ Nat.repr i.line ++ ": " ++ rest := by
  unfold report
  simp only [String.append_assoc]
  exact ⟨_, rfl⟩

theorem isPrintableText_report (i : FitIssue) : Text.isPrintableText i.report = true := by
  have hkind : Text.isPrintableText i.kind.name = true := by cases i.kind <;> decide
  have hdimension : Text.isPrintableText i.dimension.name = true := by cases i.dimension <;> decide
  unfold report
  simp only [Text.isPrintableText_append, Text.isPrintableText_repr, Text.isPrintableText_quoted,
    Text.isPrintableText_fixedText, hkind, hdimension, Bool.and_true]
  decide

end FitIssue

/-! ## The verdicts -/

/-- A measurer that gives every text a width in the sizes of labels. -/
def Measurer.Measures (m : Measurer) : Prop := ∀ text (c : TextClass), ∃ x, m.width text c.fontSize = .ok x

theorem Measurer.Measures.width_eq {m : Measurer} (hm : m.Measures) (c : TextClass) (text : String) :
    m.width text c.fontSize = pure (m.widthOf c.fontSize text) := by
  obtain ⟨x, hx⟩ := hm text c
  rw [Measurer.widthOf, hx]
  rfl

namespace Fit

/-- The issue of a label, if the check finds one. -/
def verdict (m : Measurer) (l : Label) : Option FitIssue :=
  match check m l with
  | .ok verdict => verdict
  | .error _ => none

variable {m : Measurer} {l : Label}

theorem fillFrom_total {size : Binary64} (h : ∀ text, ∃ x, m.width text size = .ok x) (limit : Binary64)
    (line words : List String) : ∃ lines, fillFrom m limit size line words = .ok lines := by
  induction words generalizing line with
  | nil => exact ⟨[line], rfl⟩
  | cons word words ih =>
    obtain ⟨x, hx⟩ := h (lineText (line ++ [word]))
    obtain ⟨single, hsingle⟩ := ih [word]
    obtain ⟨longer, hlonger⟩ := ih (line ++ [word])
    rw [fillFrom, hx, hsingle, hlonger]
    simp only [bind, Except.bind]
    split_ifs
    · exact ⟨single, rfl⟩
    · exact ⟨line :: single, rfl⟩
    · exact ⟨longer, rfl⟩

theorem lineCount_total {size : Binary64} (h : ∀ text, ∃ x, m.width text size = .ok x) (limit : Binary64)
    (text : String) : ∃ count, lineCount m limit size text = .ok count := by
  choose filled hfilled using fillFrom_total h limit []
  have hfill : (fun p => fill m limit size (Text.words p)) = fun p => pure (filled (Text.words p)) := by
    funext p
    exact hfilled (Text.words p)
  rw [lineCount, hfill, List.mapM_pure]
  exact ⟨_, rfl⟩

/-- An issue is about a label: it has the number, the kind and the text of the label. -/
def IsAbout (l : Label) (i : FitIssue) : Prop := ∃ dimension needed available, i = issue l dimension needed available

theorem isAbout_of_ite {c : Prop} [Decidable c] {dimension : Dimension} {needed available : Binary64} {i : FitIssue}
    (h : (if c then some (issue l dimension needed available) else none) = some i) : IsAbout l i := by
  split at h
  · cases h
    exact ⟨dimension, needed, available, rfl⟩
  · cases h

theorem checkLine_total (hm : m.Measures) (l : Label) :
    ∃ v, checkLine m l = .ok v ∧ ∀ i, v = some i → IsAbout l i := by
  have hwidths : (fun p => m.width (Text.strip p) l.textClass.fontSize) =
      fun p => pure (m.widthOf l.textClass.fontSize (Text.strip p)) := funext fun p => hm.width_eq _ _
  rw [checkLine, hwidths, List.mapM_pure]
  exact ⟨_, rfl, fun i hi => isAbout_of_ite hi⟩

theorem checkBox_total (hm : m.Measures) (l : Label) :
    ∃ v, checkBox m l = .ok v ∧ ∀ i, v = some i → IsAbout l i := by
  have hwidths : (fun word => m.width word l.textClass.fontSize) =
      fun word => pure (m.widthOf l.textClass.fontSize word) := funext fun word => hm.width_eq _ _
  obtain ⟨count, hcount⟩ := lineCount_total (hm · l.textClass) (available l) l.text
  rw [checkBox, hwidths, List.mapM_pure]
  change ∃ v, (if available l < _ then _ else lineCount m (available l) _ _ >>= _) = .ok v ∧ _
  rw [hcount]
  split
  · refine ⟨_, rfl, ?_⟩
    rintro i ⟨⟩
    exact ⟨_, _, _, rfl⟩
  · exact ⟨_, rfl, fun i hi => isAbout_of_ite hi⟩

/-- The step of the check: it comes to a verdict on a label, and an issue is about this label. -/
theorem check_spec (hm : m.Measures) (l : Label) :
    check m l = .ok (verdict m l) ∧ ∀ i, verdict m l = some i → IsAbout l i := by
  have htotal : ∃ v, check m l = .ok v ∧ ∀ i, v = some i → IsAbout l i := by
    unfold check
    split
    · exact checkLine_total hm l
    · exact checkBox_total hm l
  obtain ⟨v, hv, habout⟩ := htotal
  have hverdict : verdict m l = v := by rw [verdict, hv]
  rw [hverdict]
  exact ⟨hv, habout⟩

/-- The issues of a program are those of its labels, in their order. -/
theorem checkProgram_eq (hm : m.Measures) {program : String} {chart : Chart} (h : interpret program = .ok chart) :
    checkProgram m program = .ok (chart.board.labels.filterMap (verdict m)) := by
  have hcheck : check m = fun l => pure (verdict m l) := funext fun l => (check_spec hm l).1
  have hall : checkAll m chart.board.labels = .ok (chart.board.labels.filterMap (verdict m)) := by
    rw [checkAll, hcheck, List.mapM_pure]
    change Except.ok ((chart.board.labels.map (verdict m)).filterMap id) = _
    rw [List.filterMap_map]
    rfl
  rw [checkProgram, h]
  simp only [bind, Except.bind, hall]
  rfl

end Fit

/-! ## The numbers of the lines -/

theorem numberLines_pairwise (first : Nat) (lines : List String) :
    (numberLines first lines).Pairwise fun line next => line.1 < next.1 := by
  induction lines generalizing first with
  | nil => exact .nil
  | cons line lines ih =>
    refine .cons ?_ (ih (first + 1))
    intro next hnext
    exact (mem_numberLines hnext).1

/-- From one line that draws to the next the number grows. -/
theorem drawnBy_pairwise {program : String} {chart : Chart} (h : interpret program = .ok chart) :
    (drawnBy program).Pairwise fun d next => d.number < next.number := by
  have hlines : (commandLines program).Pairwise fun line next => line.1 < next.1 :=
    (numberLines_pairwise 1 (Text.lines program)).filter _
  rw [← (interpret_drawn h).1, List.pairwise_map] at hlines
  exact hlines

/-- From one label to the next the number of the line does not decrease. -/
theorem labels_pairwise {program : String} {chart : Chart} (h : interpret program = .ok chart) :
    chart.board.labels.Pairwise fun l next => l.line ≤ next.line := by
  obtain ⟨-, hlabels, hdrawn⟩ := (numbersLines program).labels chart h
  have hline {d : Drawn} (hd : d ∈ drawnBy program) {l : Label} (hl : l ∈ d.labels) : l.line = d.number :=
    (hdrawn d hd).2 l hl
  rw [hlabels, List.pairwise_flatMap]
  constructor
  · intro d hd
    refine List.pairwise_of_forall_mem_list ?_
    intro l hl next hnext
    rw [hline hd hl, hline hd hnext]
  · refine (drawnBy_pairwise h).imp_of_mem ?_
    intro d next hd hnext hlt l hl l' hl'
    rw [hline hd hl, hline hnext hl']
    exact hlt.le

namespace Fit

variable {m : Measurer} {program : String} {chart : Chart}

theorem issues_pairwise (hm : m.Measures) (h : interpret program = .ok chart) :
    (chart.board.labels.filterMap (verdict m)).Pairwise fun i next => i.line ≤ next.line := by
  refine (labels_pairwise h).filterMap _ ?_
  intro l next hle i hi i' hi'
  obtain ⟨_, _, _, rfl⟩ := (check_spec hm l).2 i hi
  obtain ⟨_, _, _, rfl⟩ := (check_spec hm next).2 i' hi'
  exact hle

/-- An issue is about a label that a line of the program has drawn, and has the number of this line. -/
theorem exists_drawn_of_mem (hm : m.Measures) (h : interpret program = .ok chart) {i : FitIssue}
    (hi : i ∈ chart.board.labels.filterMap (verdict m)) :
    ∃ d ∈ drawnBy program, StandsAs program d.number d.line ∧ i.line = d.number ∧
      ∃ l ∈ d.labels, check m l = .ok (some i) := by
  obtain ⟨-, hlabels, hdrawn⟩ := (numbersLines program).labels chart h
  obtain ⟨l, hl, hverdict⟩ := List.mem_filterMap.1 hi
  rw [hlabels] at hl
  obtain ⟨d, hd, hl⟩ := List.mem_flatMap.1 hl
  obtain ⟨hstands, hline⟩ := hdrawn d hd
  obtain ⟨hcheck, habout⟩ := check_spec hm l
  obtain ⟨_, _, _, rfl⟩ := habout i hverdict
  exact ⟨d, hd, hstands, hline l hl, l, hl, hcheck.trans (congrArg Except.ok hverdict)⟩

end Fit
end Pinboard
