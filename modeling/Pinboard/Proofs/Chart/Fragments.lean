import Pinboard.Proofs.Chart.Drawn
import Pinboard.Proofs.Chart.Outcome
import Pinboard.Proofs.Markup.Recovery

/-!
# What a program draws, line by line

A line between pins draws a path with the next identifier (`IsLine`), and every other line draws elements of shapes
or nothing (`executeAt_fragment`); so the identifiers of a program are counted from one on (`drawnBy_counted`).
Main statement: what is read off the text of a document is the document, and in it are elements of fixed forms
alone, whatever is written in the program (`render_read`).
-/

namespace Pinboard

open Drawing (IsLine)

/-! ## One line -/

/-- Whether a line begins with one of the verbs that draw a line between pins. -/
def drawsLine (line : String) : Bool :=
  match verbOf line with
  | some (.line _) => true
  | _ => false

/-- The words of a command belong to the verb on its line. -/
theorem Command.ofLine_verb {line : String} {c : Command} (h : Command.ofLine line = .ok c) :
    ∃ verb words, verbOf line = some verb ∧ Command.ofWords verb words = some c := by
  cases hverb : verbOf line with
  | some verb =>
    obtain ⟨first, words, -, -, hwords⟩ := Command.ofLine_words hverb h
    exact ⟨verb, words, rfl, hwords⟩
  | none =>
    rw [Command.ofLine_eq] at h
    rw [verbOf] at hverb
    cases htokens : Text.tokens line with
    | nil => exact absurd htokens (tokens_ne_nil line)
    | cons first words =>
      rw [htokens, List.head?_cons, Option.bind_some] at hverb
      rw [htokens, Command.ofTokens, hverb] at h
      split at h <;> cases h

/-- Only the commands of lines between pins use up identifiers. -/
theorem Command.counts_eq {line : String} {c : Command} (h : Command.ofLine line = .ok c) :
    c.footprint.counts = drawsLine line := by
  obtain ⟨verb, words, hverb, hwords⟩ := Command.ofLine_verb h
  rw [drawsLine, hverb]
  revert hwords
  fun_cases Command.ofWords verb words <;> intro hwords
  case case15 | case16 | case17 =>
    obtain ⟨a, -, rfl⟩ := Option.map_eq_some_iff.1 hwords
    rfl
  case case18 => cases hwords
  all_goals
    cases hwords
    rfl

section
variable {b b' : Board} {fragment : Fragment}

theorem LineCommand.drawWith_isLine {l : LineCommand} {id : String} {start finish : Point}
    (h : l.drawWith id start finish b = .ok fragment b') : IsLine id fragment ∧ b'.lineCounter = b.lineCounter := by
  obtain ⟨first, last, style, path, hpath, hends⟩ := drawWith_ok h
  rcases hends with ⟨-, rfl, rfl⟩ | ⟨-, rfl, label, -, rfl⟩
  · exact ⟨⟨first, last, style, b'.stroke, path, hpath, .inl rfl⟩, rfl⟩
  · exact ⟨⟨first, last, style, b.stroke, path, hpath, .inr ⟨_, rfl⟩⟩, rfl⟩

/-- What a line draws that is carried out, and what it makes of the number of the next identifier. -/
theorem executeAt_fragment {number : Nat} {line : String} (h : executeAt number line b = .ok fragment b') :
    (drawsLine line = true ∧ IsLine (lineId b.lineCounter) fragment ∧ b'.lineCounter = b.lineCounter + 1) ∨
      (drawsLine line = false ∧ (∀ e ∈ fragment, e.HasForms shapeForms) ∧ b'.lineCounter = b.lineCounter) := by
  rw [executeAt_eq] at h
  obtain ⟨c, hc, hrun⟩ := Work.of_bind_ok h
  have hsound := (Command.ofLine_spec hc).1
  rw [← Command.counts_eq hc]
  by_cases hcounts : c.footprint.counts = false
  · obtain ⟨e, he, rfl, -⟩ := (Command.run_acts hsound).alike_of_ok hrun (.refl _ _)
    exact .inr ⟨hcounts, Command.run_figures hsound hcounts hrun, by
      simp [Board.apply, Board.onLine, he.lines hcounts]⟩
  · cases c with
    | line l =>
      obtain ⟨start, finish, -, -, hdraw⟩ := l.exists_drawWith hrun
      obtain ⟨hline, hcounter⟩ := LineCommand.drawWith_isLine hdraw
      exact .inl ⟨rfl, hline, hcounter⟩
    | _ => exact absurd rfl hcounts

end

/-! ## All lines -/

/-- Fragments of lines between pins, with the identifiers counted on from some number, and fragments of shapes among
them. -/
inductive Counted : Nat → List Fragment → Prop
  | nil (count : Nat) : Counted count []
  | line {count : Nat} {fragment : Fragment} {fragments : List Fragment} :
    IsLine (lineId count) fragment → Counted (count + 1) fragments → Counted count (fragment :: fragments)
  | shape {count : Nat} {fragment : Fragment} {fragments : List Fragment} :
    (∀ e ∈ fragment, e.HasForms shapeForms) → Counted count fragments → Counted count (fragment :: fragments)

theorem Board.drawn_counted (b : Board) (lines : List (Nat × String)) :
    Counted b.lineCounter ((b.drawn lines).map Drawn.fragment) := by
  induction lines generalizing b with
  | nil => exact .nil _
  | cons line lines ih =>
    obtain ⟨number, line⟩ := line
    cases h : executeAt number line b with
    | error fault b' =>
      rw [Board.drawn_cons_of_error h]
      exact .nil _
    | ok fragment b' =>
      rw [Board.drawn_cons_of_ok h, List.map_cons]
      have hlines := ih b'
      rcases executeAt_fragment h with ⟨-, hline, hcounter⟩ | ⟨-, hshape, hcounter⟩
      · rw [hcounter] at hlines
        exact .line hline hlines
      · rw [hcounter] at hlines
        exact .shape hshape hlines

/-- The identifiers of a program are counted from one on. -/
theorem drawnBy_counted (program : String) : Counted 1 ((drawnBy program).map Drawn.fragment) :=
  Board.start.drawn_counted (commandLines program)

/-! ## Documents -/

/-- Lines that draw nothing leave no trace. -/
theorem flatten_fragmentsOf (drawn : List Drawn) : (fragmentsOf drawn).flatten = (drawn.map Drawn.fragment).flatten := by
  induction drawn with
  | nil => rfl
  | cons d drawn ih =>
    obtain ⟨number, line, fragment, labels⟩ := d
    cases fragment with
    | nil => simpa [fragmentsOf, Drawn.isVisible] using ih
    | cons element fragment => simpa [fragmentsOf, Drawn.isVisible] using ih

/-- The document of a program has what its lines draw behind the definitions. -/
theorem exists_document {program svg : String} (h : render program = .ok svg) :
    ∃ chart width height, interpret program = .ok chart ∧
      chart.document = .ok (Document.root width height ((drawnBy program).map Drawn.fragment).flatten) ∧
        svg = Markup.print (Document.root width height ((drawnBy program).map Drawn.fragment).flatten) := by
  rw [render] at h
  cases hchart : interpret program with
  | error fault =>
    rw [hchart] at h
    cases h
  | ok chart =>
    obtain ⟨⟨width, height⟩, hsize⟩ := (Chart.run_adds Board.start_isFinite hchart).1.exists_size
    have hdocument : chart.document =
        .ok (Document.root width height ((drawnBy program).map Drawn.fragment).flatten) := by
      rw [Chart.document, hsize, (interpret_drawn hchart).2.2, flatten_fragmentsOf]
      rfl
    rw [hchart] at h
    simp only [bind, Except.bind, hdocument] at h
    exact ⟨chart, width, height, rfl, hdocument, (Except.ok.inj h).symm⟩

/-- The forms of all elements that can be in a document. -/
def elementForms : List (String × List String) := documentForms ++ (shapeForms ++ (pathForms ++ lineTextForms))

theorem Counted.forms {count : Nat} {fragments : List Fragment} (h : Counted count fragments) :
    ∀ e ∈ fragments.flatten, e.HasForms elementForms := by
  induction h with
  | nil => nofun
  | line hline _ ih =>
    rw [List.flatten_cons, List.forall_mem_append]
    have hle : pathForms ++ lineTextForms ⊆ elementForms :=
      List.subset_append_of_subset_right _ (List.subset_append_right _ _)
    exact ⟨fun e he => (hline.forms e he).mono hle, ih⟩
  | shape hshape _ ih =>
    rw [List.flatten_cons, List.forall_mem_append]
    have hle : shapeForms ⊆ elementForms := List.subset_append_of_subset_right _ (List.subset_append_left _ _)
    exact ⟨fun e he => (hshape e he).mono hle, ih⟩

theorem isNamed_of_mem_elementForms : ∀ form ∈ elementForms, Markup.isNamed form = true := by
  decide +kernel

/-- The document of a program is read off its text as it was built, with the tags, the attributes in their order and
the texts. What the program says has no part in the forms of its elements. -/
theorem render_read {program svg : String} (h : render program = .ok svg) :
    ∃ chart document, interpret program = .ok chart ∧ chart.document = .ok document ∧
      Markup.read svg = some document ∧ ∀ e ∈ document.elements, e.form ∈ elementForms := by
  obtain ⟨chart, width, height, hchart, hdocument, rfl⟩ := exists_document h
  have hforms := Document.root_forms (List.subset_append_left _ _ : documentForms ⊆ elementForms)
    (drawnBy_counted program).forms width height
  refine ⟨chart, _, hchart, hdocument, Markup.read_print fun e he => ?_, hforms⟩
  exact isNamed_of_mem_elementForms _ (hforms e he)

/-- A colour and a text with tags, quotation marks and references in them: the text is that of an element, and the
colour is in the value of an attribute. -/
theorem render_read_hostile :
    ∃ svg document, render "Pin a 0 0\nPin b 9 9\nFill \"/><x\nBox a b </svg>&lt;\"<br/>" = .ok svg ∧
      Markup.read svg = some document ∧ (∀ e ∈ document.elements, e.form ∈ elementForms) ∧
        (∃ e ∈ document.elements, e.text = "</svg>&lt;\"<br/>") ∧
          ∃ e ∈ document.elements, e.attribute? "style" = some "fill: #\"/><x" := by
  have htexts : (match interpret "Pin a 0 0\nPin b 9 9\nFill \"/><x\nBox a b </svg>&lt;\"<br/>" with
      | .error _ => false
      | .ok chart =>
        match chart.document with
        | .error _ => false
        | .ok document =>
          document.elements.any (fun e => e.text == "</svg>&lt;\"<br/>") &&
            document.elements.any fun e => e.attribute? "style" == some "fill: #\"/><x") = true := by
    decide +kernel
  cases h : render "Pin a 0 0\nPin b 9 9\nFill \"/><x\nBox a b </svg>&lt;\"<br/>" with
  | error fault =>
    rw [render_error_iff.1 h] at htexts
    cases htexts
  | ok svg =>
    obtain ⟨chart, document, hchart, hdocument, hread, hforms⟩ := render_read h
    rw [hchart] at htexts
    simp only [hdocument, Bool.and_eq_true, List.any_eq_true, beq_iff_eq] at htexts
    exact ⟨svg, document, rfl, hread, hforms, htexts⟩

end Pinboard
