import Pinboard.Fit.Check
import Pinboard.Proofs.Chart.Session
import Pinboard.Proofs.Fit.Filling

/-!
# A label is reported exactly if it cannot fit

The checker looks at one way of breaking a label into lines. With a measurer under which more words are never
narrower and more lines never lower (`Measurer.IsSteady`), that is as good as looking at all of them: a label
in a box has no issue exactly if it can be broken into lines that fit (`FitsSomehow`), and otherwise the
issue says whether a word is too wide or the lines are too high. Main statement: `checkProgram_exact`.
-/

namespace Pinboard

open Binary64 (ofInt)

/-- A measurer that gives every text a width, under which a run of words is never narrower than a part of it
and lines are never higher than more lines. -/
structure Measurer.IsSteady (m : Measurer) : Prop where
  measures : ∀ text (c : TextClass), ∃ x, m.width text c.fontSize = .ok x
  widens : ∀ (c : TextClass) (before run after : List String) (x y : Binary64),
    (∀ word ∈ before ++ run ++ after, Text.isWord word = true) → run ≠ [] →
      m.width (Fit.lineText run) c.fontSize = .ok x →
        m.width (Fit.lineText (before ++ run ++ after)) c.fontSize = .ok y → x ≤ y
  rises : ∀ (c : TextClass) (j k : Nat), 0 < j → j ≤ k →
    ofInt j * m.lineHeight c.fontSize ≤ ofInt k * m.lineHeight c.fontSize

namespace Measurer.IsSteady

variable {m : Measurer} (hm : m.IsSteady) (c : TextClass)

include hm

theorem width_eq (text : String) : m.width text c.fontSize = .ok (m.widthOf c.fontSize text) := by
  obtain ⟨x, hx⟩ := hm.measures text c
  rw [widthOf, hx]

theorem isWidening : m.IsWidening c.fontSize :=
  ⟨fun run _ _ => hm.measures (Fit.lineText run) c, hm.widens c⟩

theorem widthOf_word_ne_nan {word : String} (hword : Text.isWord word = true) :
    m.widthOf c.fontSize word ≠ .nan := by
  have hne := (hm.isWidening c).widthOf_ne_nan (List.forall_mem_singleton.2 hword) (List.cons_ne_nil word [])
  rwa [Fit.lineText, String.intercalate_singleton] at hne

theorem height_ne_nan {count : Nat} (hcount : 0 < count) : ofInt count * m.lineHeight c.fontSize ≠ .nan :=
  (Binary64.ne_nan_of_le (hm.rises c count count hcount (Nat.le_refl count))).1

end Measurer.IsSteady

namespace Fit

variable {m : Measurer} {l : Label}

/-! ## What it is to fit -/

/-- The width that a box has for a line of its label. -/
def available (l : Label) : Binary64 := max (l.width - padding) 0

/-- A line of words is no wider than the box; a line without words needs no width. -/
def LineFits (m : Measurer) (l : Label) (line : List String) : Prop :=
  line ≠ [] → ∃ x, m.width (lineText line) l.textClass.fontSize = .ok x ∧ x ≤ available l

/-- The paragraphs of a label can be broken into lines of whole words that are no wider than the box, and
together no higher. -/
def FitsSomehow (m : Measurer) (l : Label) : Prop :=
  ∃ layout, IsLayout (Text.paragraphs l.text) layout ∧ (∀ line ∈ layout.flatten, LineFits m l line) ∧
    ofInt layout.flatten.length * m.lineHeight l.textClass.fontSize ≤ l.height

/-- A word is wider than the box. -/
def TooWide (m : Measurer) (l : Label) (word : String) : Prop :=
  ∃ x, m.width word l.textClass.fontSize = .ok x ∧ available l < x

/-- A number is the width of a word of the label, and no word is wider. -/
def IsWidest (m : Measurer) (l : Label) (x : Binary64) : Prop :=
  (∃ word ∈ allWords l.text, m.width word l.textClass.fontSize = .ok x) ∧
    ∀ word ∈ allWords l.text, ∀ y, m.width word l.textClass.fontSize = .ok y → y ≤ x

/-- What the verdict on a label has to be. -/
structure Judges (m : Measurer) (l : Label) (verdict : Option FitIssue) : Prop where
  about : ∀ i, verdict = some i → i.line = l.line ∧ i.kind = l.kind ∧ i.text = l.text
  none_iff : l.kind = .box → (verdict = none ↔ FitsSomehow m l)
  width_iff : l.kind = .box → ∀ i, verdict = some i → (i.dimension = .width ↔ ∃ word ∈ allWords l.text, TooWide m l word)
  widest : l.kind = .box → ∀ i, verdict = some i → i.dimension = .width → IsWidest m l i.needed

/-- To report the height is right if no word is too wide and nothing fits. -/
theorem judges_height (hnone : ¬∃ word ∈ allWords l.text, TooWide m l word) (h : ¬FitsSomehow m l)
    (needed available : Binary64) : Judges m l (some (issue l .height needed available)) := by
  refine ⟨?_, fun _ => iff_of_false (by simp) h, fun _ => ?_, fun _ => ?_⟩
  · rintro i ⟨⟩
    exact ⟨rfl, rfl, rfl⟩
  · rintro i ⟨⟩
    exact iff_of_false (by simp [issue]) hnone
  · rintro i ⟨⟩ hdimension
    cases hdimension

/-- To report nothing is right if the label fits. -/
theorem judges_none (h : FitsSomehow m l) : Judges m l none := by
  refine ⟨?_, fun _ => iff_of_true rfl h, fun _ => ?_, fun _ => ?_⟩ <;> rintro i ⟨⟩

/-! ## The widest of some numbers -/

theorem foldl_max_spec {x : Binary64} {xs : List Binary64} (hx : x ≠ .nan) (hxs : ∀ y ∈ xs, y ≠ .nan) :
    xs.foldl max x ∈ x :: xs ∧ ∀ y ∈ x :: xs, y ≤ xs.foldl max x := by
  induction xs generalizing x with
  | nil =>
    refine ⟨List.mem_singleton_self x, List.forall_mem_singleton.2 ?_⟩
    exact (Binary64.le_iff_place hx hx).2 (Int.le_refl _)
  | cons y xs ih =>
    obtain ⟨hy, hrest⟩ := List.forall_mem_cons.1 hxs
    obtain ⟨hmem, hle⟩ := ih (Binary64.max_ne_nan hx hy) hrest
    obtain ⟨hfirst, htail⟩ := List.forall_mem_cons.1 hle
    obtain ⟨hxmax, hymax⟩ := Binary64.le_max hx hy
    rw [List.foldl_cons]
    refine ⟨?_, List.forall_mem_cons.2 ⟨?_, List.forall_mem_cons.2 ⟨?_, htail⟩⟩⟩
    · rcases List.mem_cons.1 hmem with heq | hmem
      · rw [heq]
        rcases Binary64.max_eq_or x y with h | h <;> simp [h]
      · exact List.mem_cons_of_mem _ (List.mem_cons_of_mem _ hmem)
    · exact Binary64.le_trans hxmax hfirst
    · exact Binary64.le_trans hymax hfirst

/-- The widest of some numbers is one of them, unless there are none. -/
theorem widest_spec {xs : List Binary64} (hne : xs ≠ []) (hxs : ∀ y ∈ xs, y ≠ .nan) (fallback : Binary64) :
    widest fallback xs ∈ xs ∧ ∀ y ∈ xs, y ≤ widest fallback xs := by
  cases xs with
  | nil => exact absurd rfl hne
  | cons x xs =>
    obtain ⟨hx, hrest⟩ := List.forall_mem_cons.1 hxs
    exact foldl_max_spec hx hrest

/-! ## The words of a layout -/

/-- Each word of the paragraphs is on a line of a layout. -/
theorem exists_line {paragraphs : List String} {lines : List (List (List String))}
    (h : IsLayout paragraphs lines)
    {paragraph word : String} (hparagraph : paragraph ∈ paragraphs) (hword : word ∈ Text.words paragraph) :
    ∃ line ∈ lines.flatten, word ∈ line := by
  induction h with
  | nil => simp at hparagraph
  | cons hbreaks _ ih =>
    rw [List.flatten_cons]
    rcases List.mem_cons.1 hparagraph with rfl | hparagraph
    · rw [← hbreaks.flatten] at hword
      obtain ⟨line, hline, hmem⟩ := List.mem_flatten.1 hword
      exact ⟨line, List.mem_append_left _ hline, hmem⟩
    · obtain ⟨line, hline, hmem⟩ := ih hparagraph
      exact ⟨line, List.mem_append_right _ hline, hmem⟩

/-! ## What the checker computes -/

variable (hm : m.IsSteady)

section
include hm

/-- The widths of the words first, the height of the filled lines after. -/
theorem checkBox_eq (l : Label) :
    checkBox m l =
      let size := l.textClass.fontSize
      let needed := widest 0 ((allWords l.text).map (m.widthOf size))
      let height := ofInt (layout m (available l) size l.text).flatten.length * m.lineHeight size
      .ok (if available l < needed then some (issue l .width needed (available l))
        else if l.height < height then some (issue l .height height l.height) else none) := by
  have hwidths : (fun word => m.width word l.textClass.fontSize) =
      fun word => pure (m.widthOf l.textClass.fontSize word) := by
    funext word
    exact hm.width_eq _ word
  rw [checkBox, hwidths, List.mapM_pure]
  show (if available l < _ then _ else _) = _
  dsimp only
  split
  · rfl
  · show lineCount m (available l) _ _ >>= _ = _
    rw [lineCount_eq (hm.isWidening l.textClass)]
    rfl

end

/-! ## Words that are too wide -/

theorem mem_allWords {text word : String} :
    word ∈ allWords text ↔ ∃ paragraph ∈ Text.paragraphs text, word ∈ Text.words paragraph := by
  simp only [allWords, Text.words_strip, List.mem_flatMap]

theorem isWord_of_mem_allWords {text word : String} (h : word ∈ allWords text) : Text.isWord word = true := by
  obtain ⟨paragraph, -, hword⟩ := mem_allWords.1 h
  exact Text.isWord_of_mem_words hword

theorem available_spec (hwidth : l.width.isFinite = true) : available l ≠ .nan ∧ 0 ≤ available l := by
  have hroom := Binary64.sub_ne_nan (y := padding) hwidth (Binary64.isFinite_ofNat (by decide))
  exact ⟨Binary64.max_ne_nan hroom Binary64.zero_ne_nan, (Binary64.le_max hroom Binary64.zero_ne_nan).2⟩

section
include hm

theorem tooWide_iff {word : String} : TooWide m l word ↔ available l < m.widthOf l.textClass.fontSize word := by
  constructor
  · rintro ⟨x, hx, hlt⟩
    cases (hm.width_eq _ _).symm.trans hx
    exact hlt
  · intro hlt
    exact ⟨_, hm.width_eq _ _, hlt⟩

theorem lineFits_iff {line : List String} :
    LineFits m l line ↔ (line ≠ [] → m.widthOf l.textClass.fontSize (lineText line) ≤ available l) := by
  constructor
  · intro h hne
    obtain ⟨x, hx, hle⟩ := h hne
    cases (hm.width_eq _ _).symm.trans hx
    exact hle
  · intro h hne
    exact ⟨_, hm.width_eq _ _, h hne⟩

theorem widest_words (hne : allWords l.text ≠ []) :
    IsWidest m l (widest 0 ((allWords l.text).map (m.widthOf l.textClass.fontSize))) := by
  have hwidths : ∀ x ∈ (allWords l.text).map (m.widthOf l.textClass.fontSize), x ≠ .nan := by
    intro x hx
    obtain ⟨word, hword, rfl⟩ := List.mem_map.1 hx
    exact hm.widthOf_word_ne_nan _ (isWord_of_mem_allWords hword)
  obtain ⟨hmem, hle⟩ := widest_spec (by simpa using hne) hwidths 0
  obtain ⟨word, hword, heq⟩ := List.mem_map.1 hmem
  refine ⟨⟨word, hword, (hm.width_eq _ word).trans (congrArg _ heq)⟩, ?_⟩
  intro word' hword' y hy
  cases (hm.width_eq _ _).symm.trans hy
  exact hle _ (List.mem_map_of_mem hword')

/-- The widest word is wider than the box exactly if there is a word that is. -/
theorem available_lt_widest_iff (hwidth : l.width.isFinite = true) :
    available l < widest 0 ((allWords l.text).map (m.widthOf l.textClass.fontSize)) ↔
      ∃ word ∈ allWords l.text, TooWide m l word := by
  obtain ⟨hroom, hpos⟩ := available_spec hwidth
  by_cases hnone : allWords l.text = []
  · -- without words nothing is needed
    rw [hnone]
    refine iff_of_false ?_ (by simp)
    exact (Binary64.not_lt_iff hroom Binary64.zero_ne_nan).2 hpos
  obtain ⟨⟨word, hword, heq⟩, hle⟩ := widest_words hm hnone
  constructor
  · intro hlt
    exact ⟨word, hword, _, heq, hlt⟩
  · rintro ⟨word', hword', x, hx, hlt⟩
    exact Binary64.lt_of_lt_of_le hroom hlt (hle word' hword' x hx)

/-! ## Layouts that fit -/

theorem FitsSomehow.not_tooWide (h : FitsSomehow m l) : ¬∃ word ∈ allWords l.text, TooWide m l word := by
  rintro ⟨word, hword, hwide⟩
  obtain ⟨lines, hbreaks, hfits, -⟩ := h
  obtain ⟨paragraph, hparagraph, hmem⟩ := mem_allWords.1 hword
  obtain ⟨line, hline, hin⟩ := exists_line hbreaks hparagraph hmem
  have hle := (lineFits_iff hm).1 (hfits line hline) (List.ne_nil_of_mem hin)
  obtain ⟨before, after, rfl⟩ := List.append_of_mem hin
  have hwords := isWord_of_mem_line hbreaks hline
  rw [List.append_cons] at hle hwords
  have hpart := (hm.isWidening l.textClass).widthOf_le hwords (by simp)
  rw [lineText, String.intercalate_singleton] at hpart
  have hword := Binary64.le_trans hpart hle
  obtain ⟨hx, hroom⟩ := Binary64.ne_nan_of_le hword
  exact (Binary64.not_lt_iff hroom hx).2 hword ((tooWide_iff hm).1 hwide)

/-- If no word is too wide, no line of the filling is. -/
theorem lineFits_of_mem_layout (hwidth : l.width.isFinite = true)
    (hwords : ¬∃ word ∈ allWords l.text, TooWide m l word) {line : List String}
    (hline : line ∈ (layout m (available l) l.textClass.fontSize l.text).flatten) : LineFits m l line := by
  obtain ⟨hroom, -⟩ := available_spec hwidth
  have hin := isWord_of_mem_line (isLayout_layout m (available l) l.textClass.fontSize l.text) hline
  rw [lineFits_iff hm]
  intro hne
  rw [← Binary64.not_lt_iff hroom ((hm.isWidening _).widthOf_ne_nan hin hne)]
  obtain ⟨lines, hlines, hmem⟩ := List.mem_flatten.1 hline
  obtain ⟨paragraph, hparagraph, rfl⟩ := List.mem_map.1 hlines
  rcases mayStand_pack hmem hne with hfits | ⟨word, rfl⟩
  · exact (fits_iff hin).1 hfits
  · have hword : word ∈ Text.words paragraph := by
      have hflatten := flatten_pack (fits m (available l) l.textClass.fontSize) [] (Text.words paragraph)
      rw [List.nil_append] at hflatten
      rw [← hflatten]
      exact List.mem_flatten_of_mem hmem (List.mem_singleton_self word)
    rw [lineText, String.intercalate_singleton, ← tooWide_iff hm]
    intro hwide
    exact hwords ⟨word, mem_allWords.2 ⟨paragraph, hparagraph, hword⟩, hwide⟩

/-- If no word is too wide, the label fits exactly if the filled lines are no higher than the box. -/
theorem fitsSomehow_iff (hwidth : l.width.isFinite = true)
    (hwords : ¬∃ word ∈ allWords l.text, TooWide m l word) :
    FitsSomehow m l ↔
      ofInt (layout m (available l) l.textClass.fontSize l.text).flatten.length * m.lineHeight l.textClass.fontSize ≤
        l.height := by
  obtain ⟨hroom, -⟩ := available_spec hwidth
  constructor
  · rintro ⟨other, hother, hfits, hheight⟩
    have hstand : ∀ line ∈ other.flatten, line ≠ [] → MayStand (fits m (available l) l.textClass.fontSize) line := by
      intro line hline hne
      have hle := (lineFits_iff hm).1 (hfits line hline) hne
      have hin := isWord_of_mem_line hother hline
      refine .inl ((fits_iff hin).2 ?_)
      exact (Binary64.not_lt_iff hroom ((hm.isWidening _).widthOf_ne_nan hin hne)).2 hle
    have hle := length_layout_le (hm.isWidening l.textClass) hother hstand
    exact Binary64.le_trans (hm.rises _ _ _ (length_layout_pos _ _ _ _) hle) hheight
  · intro hheight
    exact ⟨_, isLayout_layout _ _ _ _, fun line hline => lineFits_of_mem_layout hm hwidth hwords hline, hheight⟩

/-! ## The verdict -/

/-- To report the width is right if a word is too wide. -/
theorem judges_width (h : ∃ word ∈ allWords l.text, TooWide m l word) :
    Judges m l (some (issue l .width (widest 0 ((allWords l.text).map (m.widthOf l.textClass.fontSize)))
      (available l))) := by
  have hne : allWords l.text ≠ [] := by
    obtain ⟨word, hword, -⟩ := h
    exact List.ne_nil_of_mem hword
  refine ⟨?_, fun _ => iff_of_false (by simp) ?_, fun _ => ?_, fun _ => ?_⟩
  · rintro i ⟨⟩
    exact ⟨rfl, rfl, rfl⟩
  · intro hfits
    exact hfits.not_tooWide hm h
  · rintro i ⟨⟩
    exact iff_of_true rfl h
  · rintro i ⟨⟩ -
    exact widest_words hm hne

/-- The verdict on a label with a finite room is right. -/
theorem checkBox_judges (hkind : l.kind = .box) (hroom : l.HasRoom) :
    ∃ verdict, checkBox m l = .ok verdict ∧ Judges m l verdict := by
  obtain ⟨hwidth, hheight⟩ := hroom hkind
  have hiff := available_lt_widest_iff hm hwidth
  refine ⟨_, checkBox_eq hm l, ?_⟩
  split
  next hwide => exact judges_width hm (hiff.1 hwide)
  next hnarrow =>
    have hnone := mt hiff.2 hnarrow
    have hfits := fitsSomehow_iff hm hwidth hnone
    have hpos := length_layout_pos m (available l) l.textClass.fontSize l.text
    have hnan := hm.height_ne_nan l.textClass hpos
    rw [← Binary64.not_lt_iff (Binary64.ne_nan_of_isFinite hheight) hnan] at hfits
    split
    next h => exact judges_height hnone (fun hsome => hfits.1 hsome h) _ _
    next h => exact judges_none (hfits.2 h)

theorem checkLine_judges (hkind : l.kind = .line) : ∃ verdict, checkLine m l = .ok verdict ∧ Judges m l verdict := by
  have hbox : ¬l.kind = .box := by simp [hkind]
  have hwidths : (fun p => m.width (Text.strip p) l.textClass.fontSize) =
      fun p => pure (m.widthOf l.textClass.fontSize (Text.strip p)) := by
    funext p
    exact hm.width_eq _ _
  rw [checkLine, hwidths, List.mapM_pure]
  refine ⟨_, rfl, ?_, fun h => absurd h hbox, fun h => absurd h hbox, fun h => absurd h hbox⟩
  intro i hi
  split at hi
  · cases hi
    exact ⟨rfl, rfl, rfl⟩
  · cases hi

/-- The step of the check: one verdict for each label. -/
theorem check_judges (hroom : l.HasRoom) : ∃ verdict, check m l = .ok verdict ∧ Judges m l verdict := by
  cases hkind : l.kind with
  | box =>
    rw [check, hkind]
    exact checkBox_judges hm hkind hroom
  | line =>
    rw [check, hkind]
    exact checkLine_judges hm hkind

theorem checkAll_judges {labels : List Label} (hroom : ∀ l ∈ labels, l.HasRoom) :
    ∃ verdicts, labels.mapM (check m) = .ok verdicts ∧ List.Forall₂ (Judges m) labels verdicts := by
  induction labels with
  | nil => exact ⟨[], rfl, .nil⟩
  | cons l labels ih =>
    obtain ⟨hfirst, hrest⟩ := List.forall_mem_cons.1 hroom
    obtain ⟨verdict, hcheck, hjudges⟩ := check_judges hm hfirst
    obtain ⟨verdicts, hall, hforall⟩ := ih hrest
    refine ⟨verdict :: verdicts, ?_, .cons hjudges hforall⟩
    rw [List.mapM_cons, hcheck, hall]
    rfl

/-- The check of a program goes through its labels in their order and reports at most one issue for each. A
label in a box has an issue exactly if it cannot be broken into lines that fit; the issue is its width exactly
if it has a word that is wider than the box, and then it names the width of its widest word. -/
theorem checkProgram_exact {program : String} {chart : Chart} (h : interpret program = .ok chart) :
    ∃ verdicts, checkProgram m program = .ok (verdicts.filterMap id) ∧
      List.Forall₂ (Judges m) chart.board.labels verdicts := by
  have hroom := Chart.run_hasRoom Board.start_isFinite (fun _ hl => by cases hl) h
  obtain ⟨verdicts, hall, hjudges⟩ := checkAll_judges hm hroom
  refine ⟨verdicts, ?_, hjudges⟩
  have hissues : checkAll m chart.board.labels = .ok (verdicts.filterMap id) := by
    rw [checkAll, hall]
    rfl
  rw [checkProgram, h]
  simp only [bind, Except.bind, hissues]
  rfl

end

theorem evenMeasurer_isSteady : evenMeasurer.IsSteady := by
  refine ⟨fun text c => ⟨_, rfl⟩, ?_, ?_⟩
  · intro c
    have hsize : c.fontSize.isFinite = true ∧ 0 < c.fontSize := by cases c <;> decide +kernel
    exact (evenMeasurer_isWidening hsize.1 hsize.2).widens
  · intro c j k _ hle
    have hheight : (lineHeight c.fontSize).isFinite = true ∧ 0 < lineHeight c.fontSize := by
      cases c <;> decide +kernel
    show ofInt j * lineHeight c.fontSize ≤ ofInt k * lineHeight c.fontSize
    exact Binary64.ofInt_mul_le hheight.1 hheight.2 hle

/-- A box of 40 by 30 with three texts: two lines that fit, a word that is too wide, three lines that are too
high. -/
def crowdedBox : String := "Pin a 0 0\nPin b 40 30\nBox a b ab cd\nBox a b x abcd\nBox a b ab cd ef"

theorem checkProgram_exact_crowdedBox :
    (∃ chart verdicts,
        interpret crowdedBox = .ok chart ∧ checkProgram evenMeasurer crowdedBox = .ok (verdicts.filterMap id) ∧
          List.Forall₂ (Judges evenMeasurer) chart.board.labels verdicts) ∧
      (checkProgram evenMeasurer crowdedBox).toOption.map (List.map fun i => (i.line, i.dimension)) =
        some [(4, .width), (5, .height)] := by
  refine ⟨?_, by decide +kernel⟩
  cases h : interpret crowdedBox with
  | error fault =>
    have hruns : (interpret crowdedBox).isOk = true := by decide +kernel
    rw [h] at hruns
    cases hruns
  | ok chart =>
    obtain ⟨verdicts, hcheck, hjudges⟩ := checkProgram_exact evenMeasurer_isSteady h
    exact ⟨chart, verdicts, rfl, hcheck, hjudges⟩

end Fit
end Pinboard
