import Pinboard.Chart.Command
import Pinboard.Proofs.Ring.Pushes
import Pinboard.Proofs.Ring.Removals

/-!
# Commands as lists of words

A command is read off a ring, one word after the other. As the ring holds a list of words, reading comes
to a pattern of that list: `Command.ofTokens` gives the command on a line, or what is wrong with the
number of its words, from the list of its words alone. Main statement: unless a line has more words than
a ring has slots, `Command.ofLine` is `Command.ofTokens` (`Command.ofLine_eq`).
-/

namespace Pinboard

open Pinboard.Ring (maxCapacity)

/-! ## The patterns -/

/-- The words that a command cannot do without, its keyword not counted. -/
def Verb.needs : Verb → Nat
  | .pin | .split | .corner | .move => 3
  | .offset | .project => 4
  | .moveTo _ | .moveOver | .translate | .line _ => 2
  | .reset => 1
  | .fill | .stroke | .clearFill | .clearStroke => 0
  | .shape kind => 2 + kind.parameters
  | .auto kind => 5 + kind.parameters

/-- How messages name a command. -/
def Verb.title : Verb → String
  | .pin => "Pin"
  | .offset => "Offset"
  | .split => "Split"
  | .corner => "Corner"
  | .project => "Project"
  | .move => "Move"
  | .moveTo anchor => anchor.title
  | .moveOver => "MoveOver"
  | .reset => "Reset"
  | .translate => "Translate"
  | .fill | .clearFill => "Fill"
  | .stroke | .clearStroke => "Stroke"
  | .shape kind => kind.title
  | .auto kind => kind.autoTitle
  | .line kind => kind.title

/-- A shape from its words, if they are enough. -/
def ShapeCommand.ofWords : ShapeKind → List String → Option ShapeCommand
  | .box, a :: b :: rest => some ⟨.box false, a, b, " ".intercalate rest⟩
  | .smallBox, a :: b :: rest => some ⟨.box true, a, b, " ".intercalate rest⟩
  | .table, a :: b :: columns :: rest => some ⟨.table columns, a, b, " ".intercalate rest⟩
  | .pill, a :: b :: rest => some ⟨.pill, a, b, " ".intercalate rest⟩
  | .hex, a :: b :: rest => some ⟨.hex, a, b, " ".intercalate rest⟩
  | .tiltBox, skew :: a :: b :: rest => some ⟨.tiltBox skew, a, b, " ".intercalate rest⟩
  | .trapBox, top :: bottom :: a :: b :: rest => some ⟨.trapBox top bottom, a, b, " ".intercalate rest⟩
  | .boxOut, side :: a :: b :: rest => some ⟨.notchBox true side, a, b, " ".intercalate rest⟩
  | .boxIn, side :: a :: b :: rest => some ⟨.notchBox false side, a, b, " ".intercalate rest⟩
  | _, _ => none

/-- A shape with a rectangle from its words, if they are enough. -/
def AutoCommand.ofWords (kind : ShapeKind) : List String → Option AutoCommand
  | name :: x :: y :: width :: height :: words =>
    if words.length < kind.parameters then none
    else some ⟨kind, name, x, y, width, height, words.take kind.parameters, words.drop kind.parameters⟩
  | _ => none

/-- A line with its text from its words, if they are enough. -/
def LineCommand.ofWords (kind : LineKind) : List String → Option LineCommand
  | start :: finish :: rest => some ⟨kind, start, finish, " ".intercalate rest⟩
  | _ => none

/-- A command from its words, if they are enough. -/
def Command.ofWords : Verb → List String → Option Command
  | .pin, name :: x :: y :: _ => some (.pin name x y)
  | .offset, name :: source :: dx :: dy :: _ => some (.offset name source dx dy)
  | .split, name :: first :: second :: _ => some (.split name first second)
  | .corner, name :: first :: second :: _ => some (.corner name first second)
  | .project, name :: a :: b :: target :: _ => some (.project name a b target)
  | .move, dx :: dy :: name :: rest => some (.move dx dy (name :: rest))
  | .moveTo anchor, base :: name :: rest => some (.moveTo anchor base (name :: rest))
  | .moveOver, base :: reference :: rest => some (.moveOver base reference rest)
  | .reset, name :: rest => some (.reset (name :: rest))
  | .translate, x :: y :: _ => some (.translate x y)
  | .fill, words => some (.setFill words.head?)
  | .stroke, words => some (.setStroke words.head?)
  | .clearFill, _ => some (.setFill none)
  | .clearStroke, _ => some (.setStroke none)
  | .shape kind, words => (ShapeCommand.ofWords kind words).map .shape
  | .auto kind, words => (AutoCommand.ofWords kind words).map .auto
  | .line kind, words => (LineCommand.ofWords kind words).map .line
  | _, _ => none

/-- The command that a verb makes of its words. -/
def Verb.parse (verb : Verb) (words : List String) : Except Fault Command :=
  match Command.ofWords verb words with
  | some c => .ok c
  | none => .error (.complaint (.tooFewWords verb.title verb.needs words.length))

/-- The command that some words are. -/
def Command.ofTokens : List String → Except Fault Command
  | [] => .error (.breakdown (.words .popEmpty))
  | first :: words =>
    match Verb.ofKeyword? (Text.lowercase first) with
    | none => .error (.complaint (.unknownCommand (Text.lowercase first)))
    | some verb => verb.parse words

/-! ## Reading from a ring that holds a list -/

/-- What a computation reads from a ring. -/
def Reads {α : Type} (m : Reading α) (words : Ring String) (result : Except Fault α) : Prop :=
  m.run' words = result

namespace Reads

variable {α β : Type} {words : Ring String} {x : String} {xs : List String} {result : Except Fault β}

theorem pure (a : β) : Reads (pure a) words (.ok a) := rfl

theorem get {k : Ring String → Reading β} (hk : Reads (k words) words result) :
    Reads (MonadState.get >>= k) words result := hk

theorem throw (fault : Fault) (k : α → Reading β) :
    Reads (MonadExcept.throw fault >>= k) words (.error fault) := rfl

theorem next {k : String → Reading β} (h : words.Holds (x :: xs))
    (hk : ∀ rest : Ring String, rest.Holds xs → Reads (k x) rest result) :
    Reads (Reading.next >>= k) words result := by
  obtain ⟨hp, hh⟩ := h.popFront
  rw [← hk _ hh]
  simp [Reads, StateT.run', bind, StateT.bind, Reading.next, hp, Except.bind]

theorem remaining {k : List String → Reading β} (h : words.Holds xs) (hk : Reads (k xs) words result) :
    Reads (Reading.remaining >>= k) words result := by
  rw [← h.toList_eq] at hk
  exact hk

theorem trailingText {k : String → Reading β} (h : words.Holds xs)
    (hk : Reads (k (" ".intercalate xs)) words result) : Reads (Reading.trailingText >>= k) words result := by
  rw [← h.toList_eq] at hk
  exact hk

theorem require {n : Nat} {command : String} {k : Unit → Reading β} (h : words.Holds xs)
    (hn : n ≤ xs.length) (hk : Reads (k ()) words result) :
    Reads (Reading.require n command >>= k) words result := by
  rw [Reading.require, bind_assoc]
  refine get ?_
  rw [h.length_eq, if_neg (Nat.not_lt.2 hn)]
  exact hk

theorem require_short {n : Nat} {command : String} {k : Unit → Reading β} (h : words.Holds xs)
    (hn : xs.length < n) :
    Reads (Reading.require n command >>= k) words (.error (.complaint (.tooFewWords command n xs.length))) := by
  rw [Reading.require, bind_assoc]
  refine get ?_
  rw [h.length_eq, if_pos hn]
  exact throw _ k

theorem peek? {k : Option String → Reading β} (h : words.Holds xs) (hk : Reads (k xs.head?) words result) :
    Reads (Reading.peek? >>= k) words result := by
  rw [Reading.peek?, bind_assoc]
  refine get ?_
  rw [h.length_eq]
  cases xs with
  | nil => exact hk
  | cons x xs =>
    have hp : words.peekFront = .ok x := by rw [Ring.peekFront, h.isEmpty_eq, h.read_head]; rfl
    simpa [hp] using hk

theorem nextWords {n : Nat} {k : List String → Reading β} (h : words.Holds xs) (hn : n ≤ xs.length)
    (hk : ∀ rest : Ring String, rest.Holds (xs.drop n) → Reads (k (xs.take n)) rest result) :
    Reads (Reading.nextWords n >>= k) words result := by
  induction n generalizing words xs k with
  | zero => exact hk words h
  | succ n ih =>
    cases xs with
    | nil => simp at hn
    | cons x xs =>
      rw [Reading.nextWords, bind_assoc]
      refine next h fun rest h => ?_
      rw [bind_assoc]
      exact ih h (by simpa using hn) hk

theorem map {m : Reading α} {result : Except Fault α} (f : α → β) (h : Reads m words result) :
    Reads (do return f (← m)) words (f <$> result) := by
  rw [← show m.run' words = result from h]
  simp only [Reads, StateT.run', bind, StateT.bind]
  cases m words <;> rfl

end Reads

/-! ## The commands -/

variable {words : Ring String} {xs : List String}

/-- A list that is long enough has a first element and a rest. -/
theorem exists_cons {n : Nat} (h : n + 1 ≤ xs.length) : ∃ x rest, xs = x :: rest ∧ n ≤ rest.length := by
  cases xs with
  | nil => simp at h
  | cons x rest => exact ⟨x, rest, rfl, by simpa using h⟩

theorem ShapeCommand.ofWords_eq_none {kind : ShapeKind} (hlt : xs.length < 2 + kind.parameters) :
    ShapeCommand.ofWords kind xs = none := by
  cases h : ShapeCommand.ofWords kind xs with
  | none => rfl
  | some s =>
    revert h
    fun_cases ShapeCommand.ofWords kind xs <;> simp [ShapeKind.parameters] at hlt ⊢ <;> omega

/-- A shape is read as its pattern says. -/
theorem ShapeCommand.reads (kind : ShapeKind) (h : words.Holds xs) :
    Reads (ShapeCommand.read kind) words
      (match ShapeCommand.ofWords kind xs with
        | some s => .ok s
        | none => .error (.complaint (.tooFewWords kind.title (2 + kind.parameters) xs.length))) := by
  by_cases hlt : xs.length < 2 + kind.parameters
  · rw [ShapeCommand.ofWords_eq_none hlt]
    cases kind <;> exact .require_short h hlt
  · have hle := Nat.le_of_not_lt hlt
    cases kind with
    | box | smallBox | pill | hex =>
      obtain ⟨a, _, rfl, h1⟩ := exists_cons hle
      obtain ⟨b, rest, rfl, -⟩ := exists_cons h1
      exact .require h hle (.next h fun _ h => .next h fun _ h => .trailingText h (.pure _))
    | table | tiltBox | boxOut | boxIn =>
      obtain ⟨a, _, rfl, h1⟩ := exists_cons hle
      obtain ⟨b, _, rfl, h2⟩ := exists_cons h1
      obtain ⟨c, rest, rfl, -⟩ := exists_cons h2
      exact .require h hle (.next h fun _ h => .next h fun _ h => .next h fun _ h => .trailingText h (.pure _))
    | trapBox =>
      obtain ⟨a, _, rfl, h1⟩ := exists_cons hle
      obtain ⟨b, _, rfl, h2⟩ := exists_cons h1
      obtain ⟨c, _, rfl, h3⟩ := exists_cons h2
      obtain ⟨d, rest, rfl, -⟩ := exists_cons h3
      exact .require h hle
        (.next h fun _ h => .next h fun _ h => .next h fun _ h => .next h fun _ h => .trailingText h (.pure _))

theorem AutoCommand.ofWords_eq_none {kind : ShapeKind} (hlt : xs.length < 5 + kind.parameters) :
    AutoCommand.ofWords kind xs = none := by
  fun_cases AutoCommand.ofWords kind xs
  · rfl
  · rename_i hle
    simp only [List.length_cons] at hlt
    omega
  · rfl

/-- A shape with a rectangle is read as its pattern says. -/
theorem AutoCommand.reads (kind : ShapeKind) (h : words.Holds xs) :
    Reads (AutoCommand.read kind) words
      (match AutoCommand.ofWords kind xs with
        | some c => .ok c
        | none => .error (.complaint (.tooFewWords kind.autoTitle (5 + kind.parameters) xs.length))) := by
  by_cases hlt : xs.length < 5 + kind.parameters
  · rw [AutoCommand.ofWords_eq_none hlt]
    exact .require_short h hlt
  · have hle : kind.parameters + 4 + 1 ≤ xs.length := by omega
    obtain ⟨name, _, rfl, h1⟩ := exists_cons hle
    obtain ⟨x, _, rfl, h2⟩ := exists_cons h1
    obtain ⟨y, _, rfl, h3⟩ := exists_cons h2
    obtain ⟨width, _, rfl, h4⟩ := exists_cons h3
    obtain ⟨height, rest, rfl, h5⟩ := exists_cons h4
    rw [AutoCommand.ofWords, if_neg (Nat.not_lt.2 h5)]
    exact .require h (Nat.le_of_not_lt hlt)
      (.next h fun _ h => .next h fun _ h => .next h fun _ h => .next h fun _ h => .next h fun _ h =>
        .nextWords h h5 fun _ h => .remaining h (.pure _))

theorem LineCommand.ofWords_eq_none {kind : LineKind} (hlt : xs.length < 2) :
    LineCommand.ofWords kind xs = none := by
  fun_cases LineCommand.ofWords kind xs
  · simp only [List.length_cons] at hlt
    omega
  · rfl

/-- A line with its text is read as its pattern says. -/
theorem LineCommand.reads (kind : LineKind) (h : words.Holds xs) :
    Reads (LineCommand.read kind) words
      (match LineCommand.ofWords kind xs with
        | some l => .ok l
        | none => .error (.complaint (.tooFewWords kind.title 2 xs.length))) := by
  by_cases hlt : xs.length < 2
  · rw [LineCommand.ofWords_eq_none hlt]
    exact .require_short h hlt
  · have hle := Nat.le_of_not_lt hlt
    obtain ⟨start, _, rfl, h1⟩ := exists_cons hle
    obtain ⟨finish, rest, rfl, -⟩ := exists_cons h1
    exact .require h hle (.next h fun _ h => .next h fun _ h => .trailingText h (.pure _))

theorem Command.ofWords_eq_none {verb : Verb} (hlt : xs.length < verb.needs) :
    Command.ofWords verb xs = none := by
  fun_cases Command.ofWords verb xs
  case case15 => rw [ShapeCommand.ofWords_eq_none hlt]; rfl
  case case16 => rw [AutoCommand.ofWords_eq_none hlt]; rfl
  case case17 => rw [LineCommand.ofWords_eq_none hlt]; rfl
  case case18 => rfl
  all_goals simp only [Verb.needs, List.length_cons] at hlt; omega

theorem Command.reads_short {verb : Verb} (h : words.Holds xs) (hlt : xs.length < verb.needs) :
    Reads (Command.read verb) words (.error (.complaint (.tooFewWords verb.title verb.needs xs.length))) := by
  cases verb with
  | shape kind =>
    have hs := (ShapeCommand.reads kind h).map Command.shape
    rw [ShapeCommand.ofWords_eq_none hlt] at hs
    exact hs
  | auto kind =>
    have hs := (AutoCommand.reads kind h).map Command.auto
    rw [AutoCommand.ofWords_eq_none hlt] at hs
    exact hs
  | line kind =>
    have hs := (LineCommand.reads kind h).map Command.line
    rw [LineCommand.ofWords_eq_none hlt] at hs
    exact hs
  | fill | stroke | clearFill | clearStroke => exact absurd hlt (Nat.not_lt_zero _)
  | _ => exact .require_short h hlt

/-- A command is read as its pattern says. -/
theorem Command.reads (verb : Verb) (h : words.Holds xs) :
    Reads (Command.read verb) words (verb.parse xs) := by
  rw [Verb.parse]
  by_cases hlt : xs.length < verb.needs
  · rw [Command.ofWords_eq_none hlt]
    exact Command.reads_short h hlt
  have hle := Nat.le_of_not_lt hlt
  cases verb with
  | fill | stroke => exact .peek? h (.pure _)
  | clearFill | clearStroke => exact .pure _
  | shape kind =>
    have hs := (ShapeCommand.reads kind h).map Command.shape
    rw [Command.ofWords]
    cases hw : ShapeCommand.ofWords kind xs <;> rw [hw] at hs <;> exact hs
  | auto kind =>
    have hs := (AutoCommand.reads kind h).map Command.auto
    rw [Command.ofWords]
    cases hw : AutoCommand.ofWords kind xs <;> rw [hw] at hs <;> exact hs
  | reset =>
    obtain ⟨a, rest, rfl, -⟩ := exists_cons hle
    exact .require h hle (.remaining h (.pure _))
  | moveTo anchor =>
    obtain ⟨a, _, rfl, h1⟩ := exists_cons hle
    obtain ⟨b, rest, rfl, -⟩ := exists_cons h1
    exact .require h hle (.next h fun _ h => .remaining h (.pure _))
  | moveOver =>
    obtain ⟨a, _, rfl, h1⟩ := exists_cons hle
    obtain ⟨b, rest, rfl, -⟩ := exists_cons h1
    exact .require h hle (.next h fun _ h => .next h fun _ h => .remaining h (.pure _))
  | translate =>
    obtain ⟨a, _, rfl, h1⟩ := exists_cons hle
    obtain ⟨b, rest, rfl, -⟩ := exists_cons h1
    exact .require h hle (.next h fun _ h => .next h fun _ h => .pure _)
  | line kind =>
    have hs := (LineCommand.reads kind h).map Command.line
    rw [Command.ofWords]
    cases hw : LineCommand.ofWords kind xs <;> rw [hw] at hs <;> exact hs
  | move =>
    obtain ⟨a, _, rfl, h1⟩ := exists_cons hle
    obtain ⟨b, _, rfl, h2⟩ := exists_cons h1
    obtain ⟨c, rest, rfl, -⟩ := exists_cons h2
    exact .require h hle (.next h fun _ h => .next h fun _ h => .remaining h (.pure _))
  | pin | split | corner =>
    obtain ⟨a, _, rfl, h1⟩ := exists_cons hle
    obtain ⟨b, _, rfl, h2⟩ := exists_cons h1
    obtain ⟨c, rest, rfl, -⟩ := exists_cons h2
    exact .require h hle (.next h fun _ h => .next h fun _ h => .next h fun _ h => .pure _)
  | offset | project =>
    obtain ⟨a, _, rfl, h1⟩ := exists_cons hle
    obtain ⟨b, _, rfl, h2⟩ := exists_cons h1
    obtain ⟨c, _, rfl, h3⟩ := exists_cons h2
    obtain ⟨d, rest, rfl, -⟩ := exists_cons h3
    exact .require h hle (.next h fun _ h => .next h fun _ h => .next h fun _ h => .next h fun _ h => .pure _)

/-! ## Lines -/

theorem wordsOf_holds (hlt : xs.length < maxCapacity) : ∃ words, wordsOf xs = .ok words ∧ words.Holds xs := by
  obtain ⟨words, hw, hh⟩ := Ring.ofList_holds xs hlt
  exact ⟨words, by rw [wordsOf, hw]; rfl, hh⟩

theorem wordsOf_error (hge : maxCapacity ≤ xs.length) :
    wordsOf xs = .error (.breakdown (.words (.tooManyElements xs.length))) := by
  rw [wordsOf, Ring.ofList_error hge]; rfl

/-- The command on a line is that of its words, unless they are more than a ring can hold. -/
theorem Command.ofLine_eq (line : String) :
    Command.ofLine line =
      if maxCapacity ≤ (Text.tokens line).length then
        .error (.breakdown (.words (.tooManyElements (Text.tokens line).length)))
      else Command.ofTokens (Text.tokens line) := by
  rw [Command.ofLine]
  generalize Text.tokens line = tokens
  by_cases hge : maxCapacity ≤ tokens.length
  · rw [if_pos hge, wordsOf_error hge]; rfl
  · obtain ⟨words, hw, hh⟩ := wordsOf_holds (Nat.lt_of_not_le hge)
    rw [if_neg hge, hw]
    cases tokens with
    | nil => simp [Command.ofTokens, bind, Except.bind, StateT.run, Reading.next, hh.popFront_nil]
    | cons first rest =>
      obtain ⟨hp, hrest⟩ := hh.popFront
      rw [Command.ofTokens]
      simp only [bind, Except.bind, StateT.run, Reading.next, hp]
      cases Verb.ofKeyword? (Text.lowercase first) with
      | none => rfl
      | some verb => exact Command.reads verb hrest

theorem tokens_ne_nil (line : String) : Text.tokens line ≠ [] := by
  simpa [Text.tokens, Text.parts, Text.cutAtRuns] using Text.cutAtRunsFrom_ne_nil _ _ _

end Pinboard
