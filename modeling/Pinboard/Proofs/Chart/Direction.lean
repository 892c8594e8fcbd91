import Pinboard.Proofs.Chart.Drawn
import Pinboard.Proofs.Chart.Outcome
import Pinboard.Proofs.Drawing.References
import Pinboard.Proofs.Numeric.Order

/-!
# The direction of lines

The path of a line runs from left to right, or from right to left if the line is flipped, whichever of its two pins
comes first; so it may run from the second pin to the first. Then the head of an arrow, which is at the second pin, is
where the path starts, and the text is shifted the other way. Main statement: a line between two pins of a session is
always drawn, and its path, its head and its text agree on the direction (`executeAt_isDirected`).
-/

namespace Pinboard

/-! ## Heads -/

/-- The attributes that put a head on a path. -/
def headNames : List String := ["marker", "marker-start", "marker-mid", "marker-end"]

/-- The heads of an element and of all elements inside it: each by its attribute and its reference. -/
def Element.heads (e : Element) : List (String × String) :=
  e.elements.flatMap fun inner => inner.attributes.filter fun entry => headNames.contains entry.1

/-- The head at the second pin of a line, which is the start of its path if the path runs backward. -/
def headAt (backward : Bool) : String × String :=
  if backward then ("marker-start", "url(#arrow_r2l)") else ("marker-end", "url(#arrow_l2r)")

theorem Element.heads_eq_nil {e : Element} {forms : List (String × List String)} (h : e.HasForms forms)
    (hnone : ∀ form ∈ forms, ∀ name ∈ form.2, name ∉ headNames) : e.heads = [] := by
  rw [heads, List.flatMap_eq_nil_iff]
  intro inner hinner
  rw [List.filter_eq_nil_iff]
  intro entry hentry
  have hname := hnone _ (h inner hinner) entry.1 (List.mem_map_of_mem hentry)
  simpa using hname

/-! ## What is drawn -/

/-- How the path of a line goes from one of its pins to the other one. -/
structure LineKind.Directs (kind : LineKind) (start finish : Point) (backward : Bool) (first last : Point) : Prop where
  ends : (first, last) = if backward then (finish, start) else (start, finish)
  upright : kind.flipped = false → first.x ≤ last.x
  inverted : kind.flipped = true → last.x ≤ first.x

/-- The path of a line: straight, with a head at the second pin if the line is an arrow. -/
structure LineKind.IsPath (kind : LineKind) (backward : Bool) (first last : Point) (path : Element) : Prop where
  tag : path.tag = "path"
  straight : ∃ a b, Drawing.pointText first = .ok a ∧ Drawing.pointText last = .ok b ∧
    path.attribute? "d" = some ("M" ++ a ++ "L" ++ b)
  heads : path.heads = if kind.arrow then [headAt backward] else []

/-- The text of a line: shifted away from the head of an arrow, and turned if the line is flipped. -/
structure LineKind.IsText (kind : LineKind) (backward : Bool) (text : Element) : Prop where
  tag : text.tag = "text"
  shift : text.attribute? "dx" = if kind.arrow then some (if backward then "5" else "-5") else none
  turn : text.attribute? "style" = if kind.flipped then some Drawing.flippedText else none
  heads : text.heads = []

theorem orient_directs (kind : LineKind) {start finish : Point} (hs : start.isFinite = true)
    (hf : finish.isFinite = true) :
    kind.Directs start finish (orient kind.flipped start finish).2.2 (orient kind.flipped start finish).1
      (orient kind.flipped start finish).2.1 := by
  have hstart := Binary64.ne_nan_of_isFinite ((Point.isFinite_iff start).1 hs).1
  have hfinish := Binary64.ne_nan_of_isFinite ((Point.isFinite_iff finish).1 hf).1
  -- the ends are exchanged for their order and once more for the flip
  by_cases h : finish.x < start.x
  · have hle := Binary64.le_of_lt hfinish hstart h
    cases hflipped : kind.flipped
    · constructor <;> simp [orient, h, hflipped, hle]
    · constructor <;> simp [orient, h, hflipped, hle]
  · have hle := (Binary64.not_lt_iff hfinish hstart).1 h
    cases hflipped : kind.flipped
    · constructor <;> simp [orient, h, hflipped, hle]
    · constructor <;> simp [orient, h, hflipped, hle]

namespace Drawing

theorem filter_colourStyle (property : String) (colour : Option String) :
    (colourStyle property colour).filter (fun entry => headNames.contains entry.1) = [] := by
  unfold colourStyle
  split
  · rfl
  · split <;> rfl

theorem linePath_isPath {id : String} {first last : Point} {kind : LineKind} {backward : Bool} {stroke : Option String}
    {path : Element} (h : linePath id first last ⟨kind.arrow, backward, kind.flipped⟩ stroke = .ok path) :
    kind.IsPath backward first last path := by
  obtain ⟨a, ha, h⟩ := exists_of_except_bind_ok h
  obtain ⟨b, hb, h⟩ := exists_of_except_bind_ok h
  cases h
  refine ⟨rfl, ⟨a, b, ha, hb, ?_⟩, ?_⟩
  · have hhead : (headReference ⟨kind.arrow, backward, kind.flipped⟩).lookup "d" = none := by
      cases harrow : kind.arrow <;> cases backward <;> simp [headReference, List.lookup_cons]
    simp [Element.attribute?, Element.leaf, Element.attributes, List.lookup_append, hhead, lookup_colourStyle,
      List.lookup_cons]
  · rw [Element.heads, Element.elements_leaf, List.flatMap_singleton, Element.leaf, Element.attributes,
      List.filter_append, List.filter_append, filter_colourStyle]
    cases harrow : kind.arrow <;> cases backward <;> rfl

theorem lineText_isText (id text : String) (kind : LineKind) (backward : Bool) :
    kind.IsText backward (lineText id text ⟨kind.arrow, backward, kind.flipped⟩) := by
  refine ⟨rfl, ?_, ?_, Element.heads_eq_nil (lineText_forms _ _ _) (by decide)⟩
  · cases harrow : kind.arrow <;> cases hflipped : kind.flipped <;> rfl
  · cases harrow : kind.arrow <;> cases hflipped : kind.flipped <;> rfl

end Drawing

/-! ## Lines of a session -/

variable {l : LineCommand} {start finish : Point}

/-- What is drawn for a line between two points: its path and, unless it has no text, the text along the path. Both
agree on whether the path runs backward. -/
def LineCommand.IsDirected (l : LineCommand) (start finish : Point) (fragment : Fragment) : Prop :=
  ∃ backward first last path, l.kind.Directs start finish backward first last ∧
    l.kind.IsPath backward first last path ∧
      (l.text = "" ∧ fragment = [path] ∨
        l.text ≠ "" ∧ ∃ text, fragment = [path, text] ∧ l.kind.IsText backward text)

theorem LineCommand.drawWith_isDirected (hs : start.isFinite = true) (hf : finish.isFinite = true) (id : String)
    (b : Board) : ∃ fragment b', l.drawWith id start finish b = .ok fragment b' ∧ l.IsDirected start finish fragment := by
  have hdirects := orient_directs l.kind hs hf
  have hfinite := orient_isFinite l.kind.flipped hs hf
  unfold drawWith
  generalize orient l.kind.flipped start finish = ends at hdirects hfinite ⊢
  obtain ⟨first, last, backward⟩ := ends
  obtain ⟨path, hpath⟩ := Drawing.linePath_ok hfinite.1 hfinite.2 id ⟨l.kind.arrow, backward, l.kind.flipped⟩ b.stroke
  have hdrawn := Drawing.linePath_isPath hpath
  change ∃ fragment b', (Work.ofComputed (Drawing.linePath id first last _ b.stroke) >>= _) b = .ok fragment b' ∧ _
  rw [hpath]
  by_cases htext : l.text = ""
  · refine ⟨[path], b, ?_, ⟨backward, first, last, path, hdirects, hdrawn, .inl ⟨htext, rfl⟩⟩⟩
    simp only [htext]
    rfl
  · have hempty : l.text.isEmpty = false := by simpa using htext
    simp only [hempty]
    exact ⟨_, _, rfl, ⟨backward, first, last, path, hdirects, hdrawn,
      .inr ⟨htext, _, rfl, Drawing.lineText_isText id _ l.kind backward⟩⟩⟩

/-- In a session a line between two pins that are there is drawn, in the direction that its kind and its pins make. -/
theorem executeAt_isDirected (lines : List (Nat × String)) (number : Nat) {line : String}
    (hline : Command.ofLine line = .ok (.line l))
    (hstart : (Board.session lines).pins.point? l.start = some start)
    (hfinish : (Board.session lines).pins.point? l.finish = some finish) :
    ∃ fragment b', executeAt number line (Board.session lines) = .ok fragment b' ∧
      l.IsDirected start finish fragment := by
  have hb := (Board.session_isFinite lines).pins
  have hdraw := l.draw_between (b := (Board.session lines).onLine number) (Meaning.pin_of_point _ _ hstart)
    (Meaning.pin_of_point _ _ hfinish)
  rw [executeAt_eq, execute_of_ok hline, Command.run, hdraw]
  exact l.drawWith_isDirected (hb.point hstart) (hb.point hfinish) _ _

/-- An arrow to the left and a flipped one straight down both run backward. -/
theorem executeAt_isDirected_backward :
    (∃ fragment b', executeAt 4 "Arrow b a" (Board.session [(1, "Pin a 0 0"), (2, "Pin b 5 0"), (3, "Pin c 5 9")]) =
      .ok fragment b' ∧ LineCommand.IsDirected ⟨⟨true, false⟩, "b", "a", ""⟩ ⟨5, 0⟩ ⟨0, 0⟩ fragment) ∧
    ∃ fragment b', executeAt 4 "FlipArrow b c x_y"
      (Board.session [(1, "Pin a 0 0"), (2, "Pin b 5 0"), (3, "Pin c 5 9")]) = .ok fragment b' ∧
        LineCommand.IsDirected ⟨⟨true, true⟩, "b", "c", "x_y"⟩ ⟨5, 0⟩ ⟨5, 9⟩ fragment :=
  ⟨executeAt_isDirected _ 4 (by decide +kernel) (by decide +kernel) (by decide +kernel),
    executeAt_isDirected _ 4 (by decide +kernel) (by decide +kernel) (by decide +kernel)⟩

end Pinboard
