import Pinboard.Proofs.Chart.Fragments

/-!
# Colours and the offset along a program

The colours and the offset stay until a line sets them anew. What a line sets them to is written on it (`fillSet`,
`strokeSet`, `offsetSet`), so what holds at a line of a program is found on the latest line before it that sets
anything (`latest`). Main statement: a line of a program that is drawn has been carried out on a board with the latest
colours and the latest offset of the lines before it (`Board.drawn_latest`).
-/

namespace Pinboard

/-! ## The latest setting -/

section
variable {α : Type} (sets : String → Option α)

/-- What the latest of some lines sets that sets anything, or what was set before them. -/
def latest (initial : α) (lines : List (Nat × String)) : α :=
  (lines.reverse.findSome? fun line => sets line.2).getD initial

theorem latest_append (initial : α) (lines more : List (Nat × String)) :
    latest sets initial (lines ++ more) = latest sets (latest sets initial lines) more := by
  unfold latest
  rw [List.reverse_append, List.findSome?_append]
  cases more.reverse.findSome? fun line => sets line.2 <;> rfl

theorem latest_cons (initial : α) (line : Nat × String) (lines : List (Nat × String)) :
    latest sets initial (line :: lines) = latest sets ((sets line.2).getD initial) lines := by
  have hline : latest sets initial [line] = (sets line.2).getD initial := by
    unfold latest
    rw [List.reverse_singleton, List.findSome?_singleton]
  rw [← hline, ← latest_append, List.singleton_append]

variable {sets}

/-- Behind a line that sets something it makes no difference what was set before. -/
theorem latest_eq_of_mem {line : Nat × String} {lines : List (Nat × String)} (hmem : line ∈ lines)
    (hline : sets line.2 ≠ none) (initial initial' : α) : latest sets initial lines = latest sets initial' lines := by
  have hsome : (lines.reverse.findSome? fun line => sets line.2) ≠ none := by
    rw [Ne, List.findSome?_eq_none_iff]
    exact fun hnone => hline (hnone line (List.mem_reverse.2 hmem))
  obtain ⟨a, ha⟩ := Option.ne_none_iff_exists'.1 hsome
  rw [latest, latest, ha, Option.getD_some, Option.getD_some]

/-- What is set is written on one of the lines, if it was not set before them. -/
theorem exists_of_latest {initial : α} {lines : List (Nat × String)} (hne : latest sets initial lines ≠ initial) :
    ∃ line ∈ lines, sets line.2 = some (latest sets initial lines) := by
  unfold latest at hne ⊢
  cases h : lines.reverse.findSome? fun line => sets line.2 with
  | none =>
    rw [h] at hne
    exact absurd rfl hne
  | some a =>
    obtain ⟨line, hmem, hline⟩ := List.exists_of_findSome?_eq_some h
    exact ⟨line, List.mem_reverse.1 hmem, hline⟩

end

/-! ## What a line sets -/

/-- The colour that a line sets: the word behind the verb that sets it, or none behind the verb that clears it. -/
def colourSet (setting clearing : Verb) (line : String) : Option (Option String) :=
  if verbOf line = some setting then some (Text.tokens line)[1]?
  else if verbOf line = some clearing then some none
  else none

/-- The fill colour that a line sets. -/
def fillSet : String → Option (Option String) := colourSet .fill .clearFill

/-- The stroke colour that a line sets. -/
def strokeSet : String → Option (Option String) := colourSet .stroke .clearStroke

/-- The offset that a line sets: the point of the two numbers behind the verb. -/
def offsetSet (line : String) : Option Point :=
  match verbOf line, Text.tokens line with
  | some .translate, _ :: x :: y :: _ =>
    match Meaning.number "Translate" "x" x, Meaning.number "Translate" "y" y with
    | .ok x, .ok y => some ⟨x, y⟩
    | _, _ => none
  | _, _ => none

/-- A board has the colours and the offset that a line sets, and otherwise those of the board before. -/
structure Board.SetBy (line : String) (b b' : Board) : Prop where
  fill : b'.fill = (fillSet line).getD b.fill
  stroke : b'.stroke = (strokeSet line).getD b.stroke
  offset : b'.offset = (offsetSet line).getD b.offset

variable {b b' : Board} {number : Nat} {line : String} {fragment : Fragment}

/-- The verbs of lines that set a colour or the offset. -/
def settingVerbs : List Verb := [.translate, .fill, .stroke, .clearFill, .clearStroke]

theorem Command.styles_eq_false {verb : Verb} {words : List String} {c : Command}
    (hwords : Command.ofWords verb words = some c) (hverb : verb ∉ settingVerbs) : c.footprint.styles = false := by
  revert hwords hverb
  fun_cases Command.ofWords verb words <;> intro hwords hverb
  case case15 | case16 | case17 =>
    obtain ⟨a, -, rfl⟩ := Option.map_eq_some_iff.1 hwords
    rfl
  case case18 => cases hwords
  all_goals
    cases hwords
    first
    | rfl
    | exact absurd (by decide) hverb

/-- The other lines set nothing. -/
theorem settings_of_verb {verb : Verb} (hverb : verbOf line = some verb) (hother : verb ∉ settingVerbs) :
    fillSet line = none ∧ strokeSet line = none ∧ offsetSet line = none := by
  simp only [settingVerbs, List.mem_cons, List.not_mem_nil, or_false, not_or] at hother
  obtain ⟨htranslate, hfill, hstroke, hclearFill, hclearStroke⟩ := hother
  refine ⟨?_, ?_, ?_⟩
  · simp [fillSet, colourSet, hverb, hfill, hclearFill]
  · simp [strokeSet, colourSet, hverb, hstroke, hclearStroke]
  · unfold offsetSet
    rw [hverb]
    split
    next hsome _ => exact absurd (Option.some.inj hsome) htranslate
    next => rfl

theorem Command.run_quiet {c : Command} (hc : c.IsSound) (hstyles : c.footprint.styles = false)
    (h : c.run b = .ok fragment b') : b'.fill = b.fill ∧ b'.stroke = b.stroke ∧ b'.offset = b.offset := by
  obtain ⟨e, he, rfl, -⟩ := (run_acts hc).alike_of_ok h (.refl _ _)
  obtain ⟨hfill, hstroke, hoffset⟩ := he.styles hstyles
  simp [Board.apply, hfill, hstroke, hoffset]

theorem Placement.translate_ok {x y : String} {u : Unit} (h : translate x y b = .ok u b') :
    ∃ dx dy, Meaning.number "Translate" "x" x = .ok dx ∧ Meaning.number "Translate" "y" y = .ok dy ∧
      b' = { b with offset := ⟨dx, dy⟩ } := by
  obtain ⟨dx, hx, h⟩ := Work.of_bind_ok h
  obtain ⟨dy, hy, h⟩ := Work.of_bind_ok h
  cases h
  exact ⟨dx, dy, hx, hy, rfl⟩

theorem Command.translate_of_words {words : List String} {c : Command}
    (h : Command.ofWords .translate words = some c) : ∃ x y rest, words = x :: y :: rest ∧ c = .translate x y := by
  match words, h with
  | x :: y :: rest, h =>
    cases h
    exact ⟨x, y, rest, rfl, rfl⟩

/-- The step of a program: only a line that sets a colour or the offset changes it. -/
theorem executeAt_setBy (h : executeAt number line b = .ok fragment b') : b.SetBy line b' := by
  rw [executeAt_eq] at h
  obtain ⟨c, hc, hrun⟩ := Work.of_bind_ok h
  obtain ⟨verb, -, hverb, -⟩ := Command.ofLine_verb hc
  obtain ⟨first, words, htokens, -, hwords⟩ := Command.ofLine_words hverb hc
  by_cases hother : verb ∉ settingVerbs
  · obtain ⟨hfill, hstroke, hoffset⟩ := settings_of_verb hverb hother
    obtain ⟨hfill', hstroke', hoffset'⟩ :=
      Command.run_quiet (Command.ofLine_spec hc).1 (Command.styles_eq_false hwords hother) hrun
    exact ⟨by rw [hfill', hfill]; rfl, by rw [hstroke', hstroke]; rfl, by rw [hoffset', hoffset]; rfl⟩
  · have hword : (first :: words)[1]? = words.head? := by cases words <;> rfl
    simp only [settingVerbs, List.mem_cons, List.not_mem_nil, or_false, not_not] at hother
    rcases hother with rfl | rfl | rfl | rfl | rfl
    · obtain ⟨x, y, rest, rfl, rfl⟩ := Command.translate_of_words hwords
      obtain ⟨_, b₁, htranslate, hrun⟩ := Work.exists_of_bind_ok hrun
      cases hrun
      obtain ⟨dx, dy, hx, hy, rfl⟩ := Placement.translate_ok htranslate
      refine ⟨?_, ?_, ?_⟩
      · simp [fillSet, colourSet, hverb, Board.onLine]
      · simp [strokeSet, colourSet, hverb, Board.onLine]
      · simp [offsetSet, hverb, htokens, hx, hy]
    all_goals
      cases hwords
      cases hrun
      refine ⟨?_, ?_, ?_⟩ <;>
        simp [fillSet, strokeSet, colourSet, offsetSet, hverb, htokens, hword, Board.onLine]

/-- A line that is carried out and begins with the verb for it sets the offset. -/
theorem offsetSet_ne_none (hverb : verbOf line = some .translate) (h : executeAt number line b = .ok fragment b') :
    offsetSet line ≠ none := by
  rw [executeAt_eq] at h
  obtain ⟨c, hc, hrun⟩ := Work.of_bind_ok h
  obtain ⟨first, words, htokens, -, hwords⟩ := Command.ofLine_words hverb hc
  obtain ⟨x, y, rest, rfl, rfl⟩ := Command.translate_of_words hwords
  obtain ⟨_, b₁, htranslate, -⟩ := Work.exists_of_bind_ok hrun
  obtain ⟨dx, dy, hx, hy, -⟩ := Placement.translate_ok htranslate
  simp [offsetSet, hverb, htokens, hx, hy]

/-! ## Along a program -/

variable {lines : List (Nat × String)}

/-- What is drawn in the place of a line has been drawn by it, on the board behind the lines before it. -/
theorem Board.drawn_getElem? {i : Nat} {d : Drawn} (h : (b.drawn lines)[i]? = some d) :
    lines[i]? = some (d.number, d.line) ∧
      executeAt d.number d.line ((lines.take i).foldl after b) =
        .ok d.fragment ((lines.take (i + 1)).foldl after b) := by
  induction lines generalizing b i with
  | nil => simp [Board.drawn] at h
  | cons line lines ih =>
    obtain ⟨number, line⟩ := line
    cases hline : executeAt number line b with
    | error fault b' =>
      rw [Board.drawn_cons_of_error hline] at h
      simp at h
    | ok fragment b' =>
      have hafter : b.after (number, line) = b' := by
        unfold after
        simp only [hline]
      rw [Board.drawn_cons_of_ok hline] at h
      cases i with
      | zero =>
        cases h
        refine ⟨rfl, ?_⟩
        simpa [hafter] using hline
      | succ i =>
        have hrest := ih h
        rw [List.getElem?_cons_succ, List.take_succ_cons, List.take_succ_cons, List.foldl_cons, List.foldl_cons, hafter]
        exact hrest

/-- A line that is drawn has been carried out with the latest colours and the latest offset of the lines before it. -/
theorem Board.drawn_latest {i : Nat} {d : Drawn} (h : (b.drawn lines)[i]? = some d) :
    ((lines.take i).foldl after b).fill = latest fillSet b.fill (lines.take i) ∧
      ((lines.take i).foldl after b).stroke = latest strokeSet b.stroke (lines.take i) ∧
        ((lines.take i).foldl after b).offset = latest offsetSet b.offset (lines.take i) := by
  induction lines generalizing b i with
  | nil => simp [Board.drawn] at h
  | cons line lines ih =>
    cases i with
    | zero => exact ⟨rfl, rfl, rfl⟩
    | succ i =>
      obtain ⟨number, line⟩ := line
      cases hline : executeAt number line b with
      | error fault b' =>
        rw [Board.drawn_cons_of_error hline] at h
        simp at h
      | ok fragment b' =>
        have hafter : b.after (number, line) = b' := by
          unfold after
          simp only [hline]
        have hset := executeAt_setBy hline
        rw [Board.drawn_cons_of_ok hline] at h
        have hrest := ih h
        simp only [List.take_succ_cons, List.foldl_cons, hafter, latest_cons, ← hset.fill, ← hset.stroke, ← hset.offset]
        exact hrest

end Pinboard
