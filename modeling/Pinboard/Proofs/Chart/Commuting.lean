import Pinboard.Proofs.Chart.Canvas
import Pinboard.Proofs.Chart.Locality

/-!
# Lines in another order

Two lines may change places if neither looks up or sets a pin that the other sets. Main statement: from any
board of a session on, each of the two lines then comes to the same result in either order, whether it fails
or not, and the drawing is the same but for the order of the pins in the table (`lines_commute`). As the size
of the canvas is found by a walk over the table, it takes the closed form of that size to see that it is the
same as well.
-/

namespace Pinboard

open Work

/-! ## Which lines -/

/-- The verbs that set or move pins and do nothing else. -/
def Verb.places : Verb → Bool
  | .pin | .offset | .split | .corner | .project | .move | .moveTo _ | .moveOver | .reset => true
  | _ => false

/-- The verbs that draw between pins that are there already. -/
def Verb.draws : Verb → Bool
  | .shape _ | .line _ => true
  | _ => false

/-- The names of the pins that the command on a line creates or moves. -/
def setNames (line : String) : List String := (footprintOf line).sets

/-- The names of the pins that the command on a line creates, moves or names. -/
def pinsOn (line : String) : List String := (footprintOf line).sets ++ (footprintOf line).uses

/-- A line that sets pins and another line that sets pins or draws, where neither sets a pin of the other. -/
structure Independent (first second : String) : Prop where
  places : ∃ verb, verbOf first = some verb ∧ verb.places = true
  acts : ∃ verb, verbOf second = some verb ∧ (verb.places || verb.draws) = true
  apart_first : ∀ name ∈ setNames first, name ∉ pinsOn second
  apart_second : ∀ name ∈ setNames second, name ∉ pinsOn first

theorem Command.footprint_of_places {verb : Verb} {words : List String} {c : Command}
    (h : Command.ofWords verb words = some c) (hverb : verb.places = true) :
    c.footprint.draws = false ∧ c.footprint.counts = false := by
  revert h
  fun_cases Command.ofWords verb words <;> intro h
  case case10 | case11 | case12 | case13 | case14 | case15 | case16 | case17 => cases hverb
  case case18 => cases h
  all_goals
    cases h
    exact ⟨rfl, rfl⟩

theorem Command.footprint_of_acts {verb : Verb} {words : List String} {c : Command}
    (h : Command.ofWords verb words = some c) (hverb : (verb.places || verb.draws) = true) :
    c.footprint.styles = false := by
  revert h
  fun_cases Command.ofWords verb words <;> intro h
  case case10 | case11 | case12 | case13 | case14 | case16 => cases hverb
  case case15 | case17 =>
    obtain ⟨a, ha, rfl⟩ := Option.map_eq_some_iff.1 h
    rfl
  case case18 => cases h
  all_goals
    cases h
    rfl

/-- What the verb of a line says about its footprint. -/
theorem footprintOf_cases {line : String} {verb : Verb} (hverb : verbOf line = some verb) :
    footprintOf line = {} ∨
      ∃ c words, footprintOf line = c.footprint ∧ Command.ofWords verb words = some c := by
  cases hc : Command.ofLine line with
  | error fault =>
    unfold footprintOf
    rw [hc]
    exact .inl rfl
  | ok c =>
    obtain ⟨first, words, -, -, hwords⟩ := Command.ofLine_words hverb hc
    exact .inr ⟨c, words, footprintOf_ok hc, hwords⟩

variable {first second : String}

theorem Independent.quiet (h : Independent first second) :
    (footprintOf first).draws = false ∧ (footprintOf first).counts = false := by
  obtain ⟨verb, hverb, hplaces⟩ := h.places
  rcases footprintOf_cases hverb with hf | ⟨c, words, hf, hwords⟩
  · rw [hf]
    exact ⟨rfl, rfl⟩
  · rw [hf]
    exact Command.footprint_of_places hwords hplaces

theorem Independent.plain (h : Independent first second) :
    (footprintOf first).styles = false ∧ (footprintOf second).styles = false := by
  have hstyles {line : String} (hacts : ∃ verb, verbOf line = some verb ∧ (verb.places || verb.draws) = true) :
      (footprintOf line).styles = false := by
    obtain ⟨verb, hverb, hacts⟩ := hacts
    rcases footprintOf_cases hverb with hf | ⟨c, words, hf, hwords⟩
    · rw [hf]
    · rw [hf]
      exact Command.footprint_of_acts hwords hacts
  obtain ⟨verb, hverb, hplaces⟩ := h.places
  exact ⟨hstyles ⟨verb, hverb, by rw [hplaces]; rfl⟩, hstyles h.acts⟩

/-! ## A line on two boards -/

/-- What a line draws on a board, or its fault. -/
def resultOn (b : Board) (line : Nat × String) : Except Fault Fragment :=
  match executeAt line.1 line.2 b with
  | .ok fragment _ => .ok fragment
  | .error fault _ => .error fault

variable {b b' : Board} {line : Nat × String}

/-- A line has the same result on boards that agree on its footprint, and changes them alike. -/
theorem after_alike (h : Board.Agrees (footprintOf line.2) (b.onLine line.1) (b'.onLine line.1)) :
    ∃ e, (footprintOf line.2).Allows e ∧ b.after line = (b.onLine line.1).apply e ∧
      b'.after line = (b'.onLine line.1).apply e ∧ resultOn b' line = resultOn b line := by
  unfold Board.after resultOn
  rw [executeAt_eq, executeAt_eq]
  cases execute_acts line.2 _ _ h with
  | ok e fragment he first second =>
    rw [first, second]
    exact ⟨e, he, rfl, rfl, rfl⟩
  | error e fault he first second =>
    rw [first, second]
    exact ⟨e, he, rfl, rfl, rfl⟩

/-- What a change does not touch is as it was for the next line. -/
theorem agrees_of_apart {f g : Footprint} {e : Change} (he : g.Allows e) (hapart : ∀ name ∈ f.uses, name ∉ g.sets)
    (hstyles : g.styles = false) (hcounts : f.counts = true → g.counts = false) (b : Board) (number other : Nat) :
    Board.Agrees f (b.onLine number) (((b.onLine other).apply e).onLine number) := by
  obtain ⟨hfill, hstroke, hoffset⟩ := he.styles hstyles
  refine ⟨?_, ?_, ?_, ?_, rfl, ?_⟩
  · intro name hname
    refine PinTable.point?_setAll b.pins fun hmem => ?_
    obtain ⟨pin, hpin, rfl⟩ := List.mem_map.1 hmem
    exact hapart pin.1 hname (he.pins pin hpin)
  · simp [Board.apply, Board.onLine, hfill]
  · simp [Board.apply, Board.onLine, hstroke]
  · simp [Board.apply, Board.onLine, hoffset]
  · intro h
    simp [Board.apply, Board.onLine, he.lines (hcounts h)]

theorem nodup_foldl_after (hb : b.pins.names.Nodup) (lines : List (Nat × String)) :
    (lines.foldl Board.after b).pins.names.Nodup := by
  induction lines generalizing b with
  | nil => exact hb
  | cons line lines ih =>
    obtain ⟨e, -, hafter, -⟩ := after_alike (.refl (footprintOf line.2) (b.onLine line.1))
    refine ih ?_
    rw [hafter]
    exact PinTable.nodup_setAll hb e.pins

/-- In a session every name is in the table once. -/
theorem nodup_session (lines : List (Nat × String)) : (Board.session lines).pins.names.Nodup :=
  nodup_foldl_after (b := Board.start) List.nodup_nil lines

/-! ## Two lines -/

/-- Pins of different names may be set in either order. -/
theorem PinTable.point?_setAll_comm (t : PinTable) {pins more : List (String × Point)}
    (h : ∀ name ∈ pins.map Prod.fst, name ∉ more.map Prod.fst) (name : String) :
    ((t.setAll pins).setAll more).point? name = ((t.setAll more).setAll pins).point? name := by
  by_cases hname : name ∈ pins.map Prod.fst
  · rw [point?_setAll _ (h name hname)]
    exact (point?_setAll_congr (point?_setAll t (h name hname)) pins).symm
  · rw [point?_setAll (t.setAll more) hname]
    exact point?_setAll_congr (point?_setAll t hname) more

/-- Two boards on which the same drawing can go on: they differ in the order of their pins at most, and in
the number of the last line. -/
structure Board.SameDrawing (b b' : Board) : Prop where
  pins : ∀ name, b'.pins.point? name = b.pins.point? name
  labels : b'.labels = b.labels
  lineCounter : b'.lineCounter = b.lineCounter
  fill : b'.fill = b.fill
  stroke : b'.stroke = b.stroke
  offset : b'.offset = b.offset
  canvas : ∃ dimensions, Canvas.size b.pins.points = .ok dimensions ∧ Canvas.size b'.pins.points = .ok dimensions

/-- The points of two sessions make the same canvas if they are the same by name. -/
theorem canvas_congr {lines more : List (Nat × String)}
    (h : ∀ name, (Board.session more).pins.point? name = (Board.session lines).pins.point? name) :
    ∃ dimensions, Canvas.size (Board.session lines).pins.points = .ok dimensions ∧
      Canvas.size (Board.session more).pins.points = .ok dimensions := by
  refine Canvas.size_congr ?_ fun p => ?_
  · intro p hp
    obtain ⟨entry, hentry, rfl⟩ := List.mem_map.1 hp
    exact (Board.session_isFinite lines).pins entry hentry
  · rw [PinTable.mem_points_iff (nodup_session more), PinTable.mem_points_iff (nodup_session lines)]
    simp only [h]

/-- The second of two independent lines does not see what the first one changes. -/
theorem Independent.unseen_first (h : Independent first second) {e : Change} (he : (footprintOf first).Allows e)
    (b : Board) (number other : Nat) :
    Board.Agrees (footprintOf second) (b.onLine number) (((b.onLine other).apply e).onLine number) := by
  refine agrees_of_apart he ?_ h.plain.1 (fun _ => h.quiet.2) b number other
  intro name huses hsets
  exact h.apart_first name hsets (List.mem_append_right _ huses)

/-- Nor does the first one see what the second one changes, which may include a counter that it does not use. -/
theorem Independent.unseen_second (h : Independent first second) {e : Change} (he : (footprintOf second).Allows e)
    (b : Board) (number other : Nat) :
    Board.Agrees (footprintOf first) (b.onLine number) (((b.onLine other).apply e).onLine number) := by
  refine agrees_of_apart he ?_ h.plain.2 (fun hcounts => ?_) b number other
  · intro name huses hsets
    exact h.apart_second name hsets (List.mem_append_right _ huses)
  · rw [h.quiet.2] at hcounts
    cases hcounts

/-- Two independent lines set pins of different names. -/
theorem Independent.disjoint (h : Independent first second) {e e' : Change} (he : (footprintOf first).Allows e)
    (he' : (footprintOf second).Allows e') : ∀ name ∈ e.pins.map Prod.fst, name ∉ e'.pins.map Prod.fst := by
  intro name hname hname'
  obtain ⟨pin, hpin, rfl⟩ := List.mem_map.1 hname
  obtain ⟨pin', hpin', heq⟩ := List.mem_map.1 hname'
  have hsets : pin.1 ∈ (footprintOf second).sets := heq ▸ he'.pins pin' hpin'
  exact h.apart_first _ (he.pins pin hpin) (List.mem_append_left _ hsets)

/-- Two independent lines at the end of a session may change places: each of them draws the same or fails the
same way, and the drawing after both is the same. -/
theorem lines_commute (lines : List (Nat × String)) {first second : Nat × String}
    (h : Independent first.2 second.2) :
    resultOn (Board.session (lines ++ [second])) first = resultOn (Board.session lines) first ∧
      resultOn (Board.session (lines ++ [first])) second = resultOn (Board.session lines) second ∧
        (Board.session (lines ++ [first, second])).SameDrawing (Board.session (lines ++ [second, first])) := by
  have hcanvas := @canvas_congr (lines ++ [first, second]) (lines ++ [second, first])
  simp only [Board.session_append, List.foldl_cons, List.foldl_nil] at hcanvas ⊢
  generalize Board.session lines = b at hcanvas ⊢
  -- each line makes the same change before the other line and after it
  obtain ⟨e, he, hafter, -⟩ := after_alike (.refl (footprintOf first.2) (b.onLine first.1))
  obtain ⟨e₂, he₂, hsecond, hboth, hresult₂⟩ := after_alike (hafter ▸ h.unseen_first he b second.1 first.1)
  obtain ⟨e₁, he₁, hfirst, hboth', hresult₁⟩ := after_alike (hsecond ▸ h.unseen_second he₂ b first.1 second.1)
  have hpins : ∀ name,
      ((b.after second).after first).pins.point? name = ((b.after first).after second).pins.point? name := by
    intro name
    rw [hboth, hboth', hfirst, hsecond]
    exact (PinTable.point?_setAll_comm b.pins (h.disjoint he₁ he₂) name).symm
  obtain ⟨hdraws, hcounts⟩ := h.quiet
  obtain ⟨hfill₁, hstroke₁, hoffset₁⟩ := he₁.styles h.plain.1
  obtain ⟨hfill₂, hstroke₂, hoffset₂⟩ := he₂.styles h.plain.2
  refine ⟨hresult₁, hresult₂, hpins, ?_, ?_, ?_, ?_, ?_, hcanvas hpins⟩
  all_goals rw [hboth, hboth', hfirst, hsecond]
  · simp [Board.apply, Board.onLine, he₁.labels hdraws]
  · simp [Board.apply, Board.onLine, he₁.lines hcounts]
  · simp [Board.apply, Board.onLine, hfill₁, hfill₂]
  · simp [Board.apply, Board.onLine, hstroke₁, hstroke₂]
  · simp [Board.apply, Board.onLine, hoffset₁, hoffset₂]

/-- Two lines that create a pin each: the table has them in another order, and the drawing is the same. -/
theorem lines_commute_two_pins :
    resultOn (Board.session [(1, "Pin a 5 5"), (3, "Offset w a 0 400")]) (2, "Pin z 300.5 0") =
        resultOn (Board.session [(1, "Pin a 5 5")]) (2, "Pin z 300.5 0") ∧
      (Board.session [(1, "Pin a 5 5"), (2, "Pin z 300.5 0"), (3, "Offset w a 0 400")]).SameDrawing
          (Board.session [(1, "Pin a 5 5"), (3, "Offset w a 0 400"), (2, "Pin z 300.5 0")]) ∧
        (Board.session [(1, "Pin a 5 5"), (2, "Pin z 300.5 0"), (3, "Offset w a 0 400")]).pins.names =
            ["a", "z", "w"] ∧
          (Board.session [(1, "Pin a 5 5"), (3, "Offset w a 0 400"), (2, "Pin z 300.5 0")]).pins.names =
            ["a", "w", "z"] := by
  have hindependent : Independent "Pin z 300.5 0" "Offset w a 0 400" := by
    refine ⟨⟨.pin, ?_, rfl⟩, ⟨.offset, ?_, rfl⟩, ?_, ?_⟩ <;> decide +kernel
  obtain ⟨hfirst, -, hsame⟩ :=
    @lines_commute [(1, "Pin a 5 5")] (2, "Pin z 300.5 0") (3, "Offset w a 0 400") hindependent
  exact ⟨hfirst, hsame, by decide +kernel, by decide +kernel⟩

end Pinboard
