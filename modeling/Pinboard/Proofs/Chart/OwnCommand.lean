import Pinboard.Proofs.Chart.Locality
import Pinboard.Proofs.Text.Cuts

/-!
# A shape drawn by its own command

A shape that sets its own pins is drawn as if its own command had been written after them. Main statement:
that command, written on a line of its own from the same words (`ownLine`), draws the same fragment with the
same labels and changes nothing else (`executeAt_ownLine`). Two things make it so. The words are put together
without blank ones between them, and so are read as they were written (`areTokens_ownWords`); and a shape
does the same with and without the labels that it has added before (`ShapeCommand.draw_again`).
-/

namespace Pinboard

open Work
open Pinboard.Ring (maxCapacity)
open Text (AreTokens isWhole)

/-! ## The line of the shape's own command -/

/-- The words of a shape's own command: its corners, and its parameters and its text where they belong. -/
def ShapeKind.ownWords (kind : ShapeKind) (topLeft bottomRight : String) (words : List String) : List String :=
  match kind, words with
  | .table, columns :: text => topLeft :: bottomRight :: columns :: text
  | .tiltBox, skew :: text => skew :: topLeft :: bottomRight :: text
  | .trapBox, top :: bottom :: text => top :: bottom :: topLeft :: bottomRight :: text
  | .boxOut, side :: text | .boxIn, side :: text => side :: topLeft :: bottomRight :: text
  | _, text => topLeft :: bottomRight :: text

/-- The line of a shape's own command, from the words of a line that sets the pins as well. -/
def ownLine (kind : ShapeKind) (line : String) : String :=
  match Text.tokens line with
  | _ :: name :: _ :: _ :: _ :: _ :: words =>
    " ".intercalate (kind.title :: kind.ownWords (name ++ "_tl") (name ++ "_br") words)
  | _ => kind.title

/-! ## Words that are none -/

theorem Meaning.number_ne_empty {command what word : String} {x : Binary64} (h : number command what word = .ok x) :
    word ≠ "" := by
  rintro rfl
  have hread : Text.Numeral.read? "" = none := by decide +kernel
  rw [number, hread] at h
  cases h

theorem Meaning.side_ne_empty {command word : String} {side : Side} (h : Meaning.side command word = .ok side) :
    word ≠ "" := by
  rintro rfl
  have hread : sideOfWord? (Text.lowercase "") = none := by decide +kernel
  rw [Meaning.side, hread] at h
  cases h

variable {b b' : Board} {fragment : Fragment}

/-- The parameters that a shape reads before its corners. -/
def Shape.leading : Shape → List String
  | .tiltBox skew => [skew]
  | .trapBox top bottom => [top, bottom]
  | .notchBox _ side => [side]
  | _ => []

/-- A shape is not drawn with an empty parameter before its corners. -/
theorem ShapeCommand.leading_ne_empty {s : ShapeCommand} (h : s.draw b = .ok fragment b') :
    ∀ word ∈ s.shape.leading, word ≠ "" := by
  obtain ⟨shape, first, second, text⟩ := s
  cases shape with
  | tiltBox skew =>
    obtain ⟨x, hx, -⟩ := of_bind_ok h
    simpa [Shape.leading] using Meaning.number_ne_empty hx
  | trapBox top bottom =>
    obtain ⟨x, hx, h⟩ := of_bind_ok h
    obtain ⟨y, hy, -⟩ := of_bind_ok h
    simpa [Shape.leading] using ⟨Meaning.number_ne_empty hx, Meaning.number_ne_empty hy⟩
  | notchBox outward side =>
    obtain ⟨x, hx, -⟩ := of_bind_ok h
    simpa [Shape.leading] using Meaning.side_ne_empty hx
  | _ => simp [Shape.leading]

/-! ## The words are read as they are written -/

variable {kind : ShapeKind} {topLeft bottomRight : String} {words : List String}

/-- The corners stand between the parameters that are read before them and all other words. -/
theorem ownWords_split (topLeft bottomRight : String) (hlen : kind.parameters ≤ words.length) :
    ∃ leading rest, words = leading ++ rest ∧
      kind.ownWords topLeft bottomRight words = leading ++ [topLeft, bottomRight] ++ rest ∧
      ∃ s, ShapeCommand.ofWords kind (kind.ownWords topLeft bottomRight words) = some s ∧ s.shape.leading = leading := by
  cases kind with
  | box | smallBox | pill | hex => exact ⟨[], words, rfl, rfl, _, rfl, rfl⟩
  | table =>
    obtain ⟨columns, text, rfl, -⟩ := exists_cons hlen
    exact ⟨[], columns :: text, rfl, rfl, _, rfl, rfl⟩
  | tiltBox | boxOut | boxIn =>
    obtain ⟨parameter, text, rfl, -⟩ := exists_cons hlen
    exact ⟨[parameter], text, rfl, rfl, _, rfl, rfl⟩
  | trapBox =>
    obtain ⟨top, _, rfl, h1⟩ := exists_cons hlen
    obtain ⟨bottom, text, rfl, -⟩ := exists_cons h1
    exact ⟨[top, bottom], text, rfl, rfl, _, rfl, rfl⟩

/-- Words that are not the last one stand in front or are not the last one of the rest. -/
theorem mem_or_of_mem_dropLast {word : String} {before rest : List String} (h : word ∈ (before ++ rest).dropLast) :
    word ∈ before ∨ word ∈ rest.dropLast := by
  by_cases hrest : rest = []
  · rw [hrest, List.append_nil] at h
    exact .inl (List.dropLast_subset _ h)
  · rw [List.dropLast_append_of_ne_nil hrest] at h
    exact List.mem_append.1 h

theorem mem_dropLast_of_append {word : String} (before : List String) {rest : List String}
    (h : word ∈ rest.dropLast) : word ∈ (before ++ rest).dropLast := by
  have hrest := List.ne_nil_of_mem (List.dropLast_subset _ h)
  rw [List.dropLast_append_of_ne_nil hrest]
  exact List.mem_append_right before h

/-- The words of the shape's own command are tokens, if no parameter before the corners is empty. -/
theorem areTokens_ownWords (hlen : kind.parameters ≤ words.length)
    (hwhole : ∀ word ∈ topLeft :: bottomRight :: words, isWhole word = true)
    (hinner : ∀ word ∈ topLeft :: bottomRight :: words.dropLast, word ≠ "")
    (hleading : ∀ s, ShapeCommand.ofWords kind (kind.ownWords topLeft bottomRight words) = some s →
      ∀ word ∈ s.shape.leading, word ≠ "") :
    AreTokens (kind.title :: kind.ownWords topLeft bottomRight words) := by
  obtain ⟨leading, rest, rfl, hsplit, s, hs, hshape⟩ := ownWords_split topLeft bottomRight hlen
  have hne := hleading s hs
  rw [hsplit]
  refine ⟨List.forall_mem_cons.2 ⟨?_, ?_⟩, ?_⟩
  · cases kind <;> decide +kernel
  · intro word hword
    refine hwhole word ?_
    simp only [List.mem_append, List.mem_cons, List.not_mem_nil, or_false] at hword ⊢
    rcases hword with (hword | hword | hword) | hword <;> simp [hword]
  · intro word hword
    rcases mem_or_of_mem_dropLast hword with hword | hword
    · rcases List.mem_append.1 hword with hword | hword
      · exact hne word (hshape ▸ hword)
      · refine hinner word ?_
        simp only [List.mem_cons, List.not_mem_nil, or_false] at hword ⊢
        rcases hword with hword | hword <;> simp [hword]
    · refine hinner word ?_
      exact List.mem_cons_of_mem _ (List.mem_cons_of_mem _ (mem_dropLast_of_append leading hword))

/-! ## The two lines -/

/-- The words that a shape is drawn from are those of its own command. -/
theorem AutoCommand.shapeWords_eq (name x y width height : String) (hlen : kind.parameters ≤ words.length) :
    (AutoCommand.mk kind name x y width height (words.take kind.parameters) (words.drop kind.parameters)).shapeWords =
      kind.ownWords (name ++ "_tl") (name ++ "_br") words := by
  cases kind with
  | box | smallBox | pill | hex => rfl
  | table | tiltBox | boxOut | boxIn =>
    obtain ⟨parameter, text, rfl, -⟩ := exists_cons hlen
    rfl
  | trapBox =>
    obtain ⟨top, _, rfl, h1⟩ := exists_cons hlen
    obtain ⟨bottom, text, rfl, -⟩ := exists_cons h1
    rfl

/-- A line that sets the pins of a shape, taken apart: `words` are those that it has for the shape. -/
structure IsAutoLine (line : String) (c : AutoCommand) (words : List String) : Prop where
  tokens : ∃ first x y width height, Text.tokens line = first :: c.name :: x :: y :: width :: height :: words
  enough : c.kind.parameters ≤ words.length
  room : words.length + 6 < maxCapacity
  sound : c.IsSound
  shapeWords : c.shapeWords = c.kind.ownWords (c.name ++ "_tl") (c.name ++ "_br") words

theorem Command.ofLine_auto {line : String} {c : Command} (hverb : verbOf line = some (.auto kind))
    (h : Command.ofLine line = .ok c) : ∃ a words, c = .auto a ∧ a.kind = kind ∧ IsAutoLine line a words := by
  obtain ⟨first, tokens, htokens, hlt, hwords⟩ := Command.ofLine_words hverb h
  obtain ⟨a, ha, rfl⟩ := Option.map_eq_some_iff.1 hwords
  obtain ⟨hsound, -⟩ := AutoCommand.ofWords_spec ha (by omega)
  revert ha
  fun_cases AutoCommand.ofWords kind tokens <;> intro ha
  case case1 => cases ha
  case case2 name x y width height words hle =>
    cases ha
    have hle := Nat.le_of_not_lt hle
    simp only [List.length_cons] at hlt
    refine ⟨_, words, rfl, rfl, ⟨first, x, y, width, height, htokens⟩, hle, by omega, hsound, ?_⟩
    exact AutoCommand.shapeWords_eq name x y width height hle
  case case3 => cases ha

/-- The line of the shape's own command holds that command. -/
theorem Command.ofLine_own {s : ShapeCommand} (hlen : (kind.ownWords topLeft bottomRight words).length + 1 < maxCapacity)
    (htokens : AreTokens (kind.title :: kind.ownWords topLeft bottomRight words))
    (hs : ShapeCommand.ofWords kind (kind.ownWords topLeft bottomRight words) = some s) :
    Command.ofLine (" ".intercalate (kind.title :: kind.ownWords topLeft bottomRight words)) = .ok (.shape s) := by
  have hkeyword : Verb.ofKeyword? (Text.lowercase kind.title) = some (.shape kind) := by
    cases kind <;> decide +kernel
  rw [Command.ofLine_eq, Text.tokens_intercalate (List.cons_ne_nil _ _) htokens, List.length_cons,
    if_neg (Nat.not_le.2 hlen), Command.ofTokens, hkeyword]
  simp only [Verb.parse, Command.ofWords, hs]
  rfl

/-! ## The same shape again -/

/-- A footprint that leaves room for labels only allows no other change. -/
theorem Board.apply_eq_of_draws {f : Footprint} {e : Change} (he : f.Allows e) (hsets : f.sets = [])
    (hcounts : f.counts = false) (hstyles : f.styles = false) (b : Board) :
    b.apply e = { b with labels := b.labels ++ e.labels } := by
  have hpins : e.pins = [] := by
    refine List.eq_nil_iff_forall_not_mem.2 fun pin hpin => ?_
    have hmem := he.pins pin hpin
    rw [hsets] at hmem
    cases hmem
  obtain ⟨hfill, hstroke, hoffset⟩ := he.styles hstyles
  simp [Board.apply, hpins, he.lines hcounts, hfill, hstroke, hoffset]

/-- A shape that has been drawn is drawn the same way again, on the board that it has left. -/
theorem ShapeCommand.draw_again {s : ShapeCommand} (h : s.draw b = .ok fragment b') :
    ∃ labels, b' = { b with labels := b.labels ++ labels } ∧
      s.draw b' = .ok fragment { b' with labels := b'.labels ++ labels } := by
  have hacts : Acts { uses := [s.first, s.second], draws := true } s.draw :=
    ShapeCommand.draw_acts rfl (by simp) (by simp)
  obtain ⟨e, he, rfl, -⟩ := hacts.alike_of_ok h (.refl _ b)
  have happly := Board.apply_eq_of_draws he rfl rfl rfl b
  have hagrees : Board.Agrees { uses := [s.first, s.second], draws := true } b (b.apply e) := by
    rw [happly]
    exact ⟨fun _ _ => rfl, rfl, rfl, rfl, rfl, fun _ => rfl⟩
  obtain ⟨e', he', hsame, hagain⟩ := hacts.alike_of_ok h hagrees
  refine ⟨e'.labels, ?_, ?_⟩
  · rw [hsame]
    exact Board.apply_eq_of_draws he' rfl rfl rfl b
  · rw [hagain, Board.apply_eq_of_draws he' rfl rfl rfl (b.apply e)]

/-- Setting the pins of a shape adds no label and leaves the number of the line. -/
theorem AutoCommand.setPins_labels {c : AutoCommand} (h : c.setPins b = .ok () b') :
    b'.labels = b.labels ∧ b'.lineNumber = b.lineNumber := by
  have hacts : Acts { uses := autoNames c.name, sets := autoNames c.name } c.setPins :=
    setPins_acts (fun _ h => h) fun _ h => h
  obtain ⟨e, he, rfl, -⟩ := hacts.alike_of_ok h (.refl _ b)
  refine ⟨?_, rfl⟩
  rw [Board.apply, he.labels rfl, List.append_nil]

/-- A command that sets pins and draws a shape does the one and then the other. -/
theorem AutoCommand.exists_draw {c : AutoCommand} {s : ShapeCommand} (hc : c.IsSound)
    (hs : ShapeCommand.ofWords c.kind c.shapeWords = some s) (h : c.draw b = .ok fragment b') :
    ∃ b₁, c.setPins b = .ok () b₁ ∧ s.draw b₁ = .ok fragment b' := by
  rw [draw, shape_eq hc hs] at h
  obtain ⟨⟨⟩, b₁, hpins, hdraw⟩ := exists_of_bind_ok h
  exact ⟨b₁, hpins, hdraw⟩

/-- The line of the shape's own command holds the shape that is drawn. -/
theorem IsAutoLine.ofLine_own {line : String} {c : AutoCommand} {s : ShapeCommand} (hline : IsAutoLine line c words)
    (hs : ShapeCommand.ofWords c.kind c.shapeWords = some s) (h : s.draw b = .ok fragment b') :
    Command.ofLine (ownLine c.kind line) = .ok (.shape s) := by
  obtain ⟨first, x, y, width, height, htokens⟩ := hline.tokens
  obtain ⟨hwhole, hinner⟩ := Text.areTokens_tokens line
  rw [htokens] at hwhole hinner
  rw [hline.shapeWords] at hs
  have hname : isWhole c.name = true := hwhole c.name (by simp)
  rw [ownLine, htokens]
  refine Command.ofLine_own ?_ (areTokens_ownWords hline.enough ?_ ?_ ?_) hs
  · obtain ⟨leading, rest, rfl, hsplit, -⟩ := ownWords_split (c.name ++ "_tl") (c.name ++ "_br") hline.enough
    have hroom := hline.room
    rw [hsplit]
    simp only [List.length_append, List.length_cons, List.length_nil] at hroom ⊢
    omega
  · refine List.forall_mem_cons.2 ⟨Text.isWhole_append hname (by decide +kernel), ?_⟩
    refine List.forall_mem_cons.2 ⟨Text.isWhole_append hname (by decide +kernel), ?_⟩
    intro word hword
    exact hwhole word (by simp [hword])
  · refine List.forall_mem_cons.2 ⟨by simp, List.forall_mem_cons.2 ⟨by simp, ?_⟩⟩
    intro word hword
    refine hinner word ?_
    exact mem_dropLast_of_append [c.name, x, y, width, height] hword
  · intro s' hs'
    cases hs.symm.trans hs'
    exact s.leading_ne_empty h

/-- After a line that sets the pins of a shape and draws it, the line of the shape's own command draws the
same fragment with the same labels, and changes nothing else. -/
theorem executeAt_ownLine {number : Nat} {line : String} (hverb : verbOf line = some (.auto kind))
    (h : executeAt number line b = .ok fragment b') :
    ∃ labels, b'.labels = b.labels ++ labels ∧
      executeAt number (ownLine kind line) b' = .ok fragment { b' with labels := b'.labels ++ labels } := by
  rw [executeAt_eq] at h
  obtain ⟨c, hc, hrun⟩ := of_bind_ok h
  obtain ⟨c, words, rfl, rfl, hline⟩ := Command.ofLine_auto hverb hc
  obtain ⟨s, hs, -, -⟩ := AutoCommand.ofWords_shapeWords hline.sound
  obtain ⟨b₁, hpins, hdraw⟩ := AutoCommand.exists_draw hline.sound hs hrun
  obtain ⟨hlabels, hnumber⟩ := AutoCommand.setPins_labels hpins
  obtain ⟨labels, hb', hagain⟩ := s.draw_again hdraw
  have hstays : b'.onLine number = b' := by
    have hnumber : b₁.lineNumber = number := hnumber
    rw [hb', Board.onLine, ← hnumber]
  have hown : execute (ownLine c.kind line) b' = s.draw b' := by
    rw [execute, hline.ofLine_own hs hdraw]
    rfl
  refine ⟨labels, ?_, ?_⟩
  · rw [hb']
    exact congrArg (· ++ labels) hlabels
  · rw [executeAt_eq, hstays, hown, hagain]

/-- How many labels there are after a computation on a board, if it has a result. -/
def labelCount {α : Type} (w : Work α) (b : Board) : Option Nat :=
  match w b with
  | .ok _ b' => some b'.labels.length
  | .error _ _ => none

theorem exists_of_labelCount {α : Type} {w : Work α} {n : Nat} (h : labelCount w b = some n) :
    ∃ a b', w b = .ok a b' ∧ b'.labels.length = n := by
  unfold labelCount at h
  cases hw : w b with
  | ok a b' =>
    rw [hw] at h
    exact ⟨a, b', rfl, Option.some.inj h⟩
  | error fault b' =>
    rw [hw] at h
    cases h

/-- A notched box on a board with an offset: the pin in the middle of its left side lies on the tip of the
notch, and its own command draws it from the corners all the same. -/
theorem executeAt_ownLine_notched :
    ownLine .boxOut "AutoBoxOut n 10 10 40 20 Left two  words" = "BoxOut Left n_tl n_br two words" ∧
      ∃ fragment b' labels,
        executeAt 2 "AutoBoxOut n 10 10 40 20 Left two  words" (Board.session [(1, "Translate 5 5")]) =
            .ok fragment b' ∧
          b'.labels = (Board.session [(1, "Translate 5 5")]).labels ++ labels ∧ labels.length = 1 ∧
            executeAt 2 "BoxOut Left n_tl n_br two words" b' =
              .ok fragment { b' with labels := b'.labels ++ labels } := by
  have hown : ownLine .boxOut "AutoBoxOut n 10 10 40 20 Left two  words" = "BoxOut Left n_tl n_br two words" := by
    decide +kernel
  have hcount : labelCount (executeAt 2 "AutoBoxOut n 10 10 40 20 Left two  words")
      (Board.session [(1, "Translate 5 5")]) = some 1 := by
    decide +kernel
  have hnone : (Board.session [(1, "Translate 5 5")]).labels.length = 0 := by decide +kernel
  have hverb : verbOf "AutoBoxOut n 10 10 40 20 Left two  words" = some (.auto .boxOut) := by decide +kernel
  refine ⟨hown, ?_⟩
  obtain ⟨fragment, b', h, hlength⟩ := exists_of_labelCount hcount
  obtain ⟨labels, hlabels, hsame⟩ := executeAt_ownLine hverb h
  rw [hown] at hsame
  refine ⟨fragment, b', labels, h, hlabels, ?_, hsame⟩
  rw [hlabels, List.length_append, hnone] at hlength
  omega

end Pinboard
