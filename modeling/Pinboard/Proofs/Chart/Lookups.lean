import Pinboard.Numeric.Conversion
import Pinboard.Proofs.Chart.Outcome

/-!
# Look-ups that cannot fail

A command takes words that it has counted, divides by what it has made sure is not zero, and looks for pins
that it has set itself. A failure of one of these steps would be a breakdown that no line should be able to
cause (`Breakdown.isInternal`). Main statement: on every board of a session no line causes one, whatever its
characters are; what is left besides complaints are the limits on the size of what is read
(`Breakdown.IsLimit`); and every chart of a program has its document (`execute_not_internal`).
-/

namespace Pinboard

open Pinboard.Ring (maxCapacity)

/-! ## Breakdowns -/

namespace Breakdown

/-- A breakdown for the size of what a line says: more words or cells than there is room for, a count of
columns with more digits than are read, or one beyond the range of numbers. -/
inductive IsLimit : Breakdown → Prop
  | room (count : Nat) (h : maxCapacity ≤ count) : IsLimit (.words (.tooManyElements count))
  | digits (digits : Nat) (h : digitLimit < digits) : IsLimit (.arithmetic (.tooManyDigits digits))
  | range : IsLimit (.arithmetic .integerTooLarge)

/-- Whether a breakdown comes from a step that is meant to succeed always: taking, peeking at or reaching
for words that are not there, cursors of a ring that are out of order, a division by zero, an integer from a
number that has none, the extent of no points, or a pin that was just set. -/
def isInternal : Breakdown → Bool
  | .words .popEmpty | .words .peekEmpty | .words .noElement | .words .noElementToSet
  | .words .noElementToDelete | .words (.outsideRing _ _ _) | .words .notFull => true
  | .words .capacityExceeded | .words (.tooManyElements _) => false
  | .arithmetic .divisionByZero | .arithmetic .infinityToInteger | .arithmetic .nanToInteger => true
  | .arithmetic .integerTooLarge | .arithmetic (.tooManyDigits _) => false
  | .emptyGroup | .lostPin _ => true

variable {bd : Breakdown}

theorem IsLimit.not_internal (h : bd.IsLimit) : bd.isInternal = false := by
  cases h <;> rfl

end Breakdown

/-! ## Columns -/

variable {bd : Breakdown}

theorem integer_limit {numeral : Text.Numeral} {fault : ArithmeticFault} (h : numeral.integer = .error fault) :
    Breakdown.IsLimit (.arithmetic fault) := by
  unfold Text.Numeral.integer at h
  split at h
  · next hlt =>
    cases h
    exact .digits _ hlt
  · cases h

theorem sizeFault_limit {columns : Int} {text : String} (h : sizeFault columns text = some bd) : bd.IsLimit := by
  unfold sizeFault at h
  split_ifs at h with hempty hroom hrange
  · cases h
    exact .room _ hroom
  · cases h
    exact .range

/-- What can be wrong with columns is their size. -/
theorem columnFault_limit {columns text : String} (h : columnFault columns text = some bd) : bd.IsLimit := by
  unfold columnFault at h
  split at h
  · cases h
  · split at h
    · next fault hinteger =>
      cases h
      exact integer_limit hinteger
    · split at h
      · cases h
      · exact sizeFault_limit h

theorem ShapeCommand.fault_limit {s : ShapeCommand} (h : s.fault = some bd) : bd.IsLimit := by
  unfold fault at h
  split at h
  · exact columnFault_limit h
  · cases h

theorem AutoCommand.fault_limit {c : AutoCommand} (h : c.fault = some bd) : bd.IsLimit := by
  unfold fault at h
  split at h
  · exact columnFault_limit h
  · cases h

theorem Command.fault_limit {c : Command} (h : c.fault = some bd) : bd.IsLimit := by
  cases c with
  | shape s => exact s.fault_limit h
  | auto a => exact a.fault_limit h
  | _ => cases h

/-- A line breaks down at a limit only. -/
theorem Breaks.limit {b : Board} {line : String} (h : Breaks b line bd) : bd.IsLimit := by
  rcases h with ⟨c, -, hfault, -⟩ | ⟨hroom, rfl⟩
  · exact Command.fault_limit hfault
  · exact .room _ hroom

/-! ## Steps that have no fault in the definitions -/

/-- The word for the side of a notch is among the parameters of every shape that has one. -/
theorem AutoCommand.IsSound.parameters_ne_nil {c : AutoCommand} (h : c.IsSound) (hnotched : c.kind.isNotched = true) :
    c.parameters ≠ [] := by
  intro hnil
  have hlen := h.parameters
  rw [hnil] at hlen
  cases hkind : c.kind <;> simp [hkind, ShapeKind.isNotched, ShapeKind.parameters] at hnotched hlen

theorem Command.parameters_ne_nil {line : String} {c : AutoCommand} (h : Command.ofLine line = .ok (.auto c))
    (hnotched : c.kind.isNotched = true) : c.parameters ≠ [] :=
  AutoCommand.IsSound.parameters_ne_nil (Command.ofLine_spec h).1 hnotched

namespace Geometry

open Binary64 (quotient)

/-- The foot of a perpendicular by divisions that fail on zero. -/
def projectChecked (a b p : Point) : Computed Point := do
  let ex := b.x - a.x
  let ey := b.y - a.y
  let dot := ex * (p.x - a.x) + ey * (p.y - a.y)
  let square := ex * ex + ey * ey
  let divisor := if square.equal 0 then 1 else square
  return ⟨a.x + (← quotient (dot * ex) divisor), a.y + (← quotient (dot * ey) divisor)⟩

/-- No division of a projection is by zero. -/
theorem projectChecked_eq (a b p : Point) : projectChecked a b p = .ok (project a b p) := by
  have hdivisor (square : Binary64) : (if square.equal 0 then 1 else square : Binary64).equal 0 = false := by
    by_cases h : square.equal 0 = true
    · rw [if_pos h]
      decide +kernel
    · rw [if_neg h]
      exact Bool.eq_false_iff.2 h
  simp [projectChecked, project, quotient, hdivisor, bind, Except.bind, pure, Except.pure]

end Geometry

/-! ## All lines -/

/-- No line has a breakdown from within on any board of a session, only one for the size of what it says. The
two steps that the commands take without a fault of their own do not need one: a notch has the word for its
side, and a projection does not divide by zero. The chart of a program has a document. -/
theorem execute_not_internal (lines : List (Nat × String)) (line : String) :
    (∀ bd b', execute line (Board.session lines) = .error (.breakdown bd) b' → bd.IsLimit ∧ bd.isInternal = false) ∧
      (∀ c, Command.ofLine line = .ok (.auto c) → c.kind.isNotched = true → c.parameters ≠ []) ∧
      (∀ a b p, Geometry.projectChecked a b p = .ok (Geometry.project a b p)) ∧
      ∀ program chart, interpret program = .ok chart →
        ∃ document, chart.document = .ok document ∧ render program = .ok (Markup.print document) := by
  refine ⟨?_, ?_, Geometry.projectChecked_eq, ?_⟩
  · intro bd b' h
    have hbreaks := (execute_breaks_iff (Board.session_isFinite lines)).1 ⟨b', h⟩
    exact ⟨hbreaks.limit, hbreaks.limit.not_internal⟩
  · intro c h hnotched
    exact Command.parameters_ne_nil h hnotched
  · intro program chart h
    obtain ⟨document, hdocument⟩ := Chart.document_ok (Chart.run_adds Board.start_isFinite h).1
    refine ⟨document, hdocument, ?_⟩
    rw [render, h]
    simp only [bind, Except.bind, hdocument]
    rfl

/-- A table breaks down on columns of 309 digits in the middle of a session, at a limit; a shape with a notch has
the word for its side; and a projection onto two pins at one point gives a chart with a document. -/
theorem execute_not_internal_wide_table :
    (∃ bd b', execute (String.ofList ("Table a b ".toList ++ wideColumns ++ " x".toList))
        (Board.session [(1, "Pin a 5 5"), (2, "Pin a x"), (3, "Split b a a")]) = .error (.breakdown bd) b' ∧
          bd.IsLimit ∧ bd.isInternal = false) ∧
      (∃ c, Command.ofLine "AutoBoxOut n 0 0 9 9 left" = .ok (.auto c) ∧ c.parameters ≠ []) ∧
      ∃ chart document, interpret "Pin a 5 5\nProject b a a a" = .ok chart ∧ chart.document = .ok document ∧
        render "Pin a 5 5\nProject b a a a" = .ok (Markup.print document) := by
  obtain ⟨hlimit, -, -, hdocument⟩ :=
    execute_not_internal [(1, "Pin a 5 5"), (2, "Pin a x"), (3, "Split b a a")]
      (String.ofList ("Table a b ".toList ++ wideColumns ++ " x".toList))
  obtain ⟨-, hnotch, -⟩ := execute_not_internal [] "AutoBoxOut n 0 0 9 9 left"
  refine ⟨?_, ?_, ?_⟩
  · have htokens : Text.tokens (String.ofList ("Table a b ".toList ++ wideColumns ++ " x".toList)) =
        ["Table", "a", "b", String.ofList wideColumns, "x"] := by
      rw [Text.tokens, Text.parts, String.toList_ofList]
      decide +kernel
    have hcommand : Command.ofLine (String.ofList ("Table a b ".toList ++ wideColumns ++ " x".toList)) =
        .ok (.shape ⟨.table (String.ofList wideColumns), "a", "b", "x"⟩) := by
      rw [Command.ofLine_eq, htokens]
      rfl
    have hfault : columnFault (String.ofList wideColumns) "x" = some (.arithmetic .integerTooLarge) := by
      rw [columnFault, Text.Numeral.read?, String.toList_ofList]
      decide +kernel
    have hplain : succeeds (Command.shape ⟨.table "1", "a", "b", ""⟩).run
        (Board.session [(1, "Pin a 5 5"), (2, "Pin a x"), (3, "Split b a a")]) = true := by
      decide +kernel
    obtain ⟨b', hbreaks⟩ := (execute_breaks_iff (Board.session_isFinite _)).2
      (.inl ⟨_, hcommand, hfault, succeeds_iff.1 hplain⟩)
    exact ⟨_, b', hbreaks, hlimit _ b' hbreaks⟩
  · have hline : Command.ofLine "AutoBoxOut n 0 0 9 9 left" =
        .ok (.auto ⟨.boxOut, "n", "0", "0", "9", "9", ["left"], []⟩) := by
      have htokens : Text.tokens "AutoBoxOut n 0 0 9 9 left" = ["AutoBoxOut", "n", "0", "0", "9", "9", "left"] := by
        decide +kernel
      rw [Command.ofLine_eq, htokens]
      rfl
    exact ⟨_, hline, hnotch _ hline rfl⟩
  · have hruns : (interpret "Pin a 5 5\nProject b a a a").isOk = true := by decide +kernel
    cases h : interpret "Pin a 5 5\nProject b a a a" with
    | error fault =>
      rw [h] at hruns
      cases hruns
    | ok chart =>
      obtain ⟨document, hdocument, hrender⟩ := hdocument _ chart h
      exact ⟨chart, document, rfl, hdocument, hrender⟩

end Pinboard
