import Pinboard.Drawing.Line

/-!
# Identifiers in a drawing

The path of a line has an identifier, and the text along the path refers to it. `Element.withId` gives
another identifier to both and leaves everything else alone. Main statements: a line that is drawn with
another identifier is the line with that identifier put in (`linePath_withId`, `lineText_withId`).
-/

namespace Pinboard

/-- An attribute with another identifier in it: the identifier itself, or a reference to it. -/
def renameAttribute (id : String) (entry : String × String) : String × String :=
  if entry.1 = "id" then (entry.1, id)
  else if entry.1 = "xlink:href" then (entry.1, "#" ++ id)
  else entry

mutual

/-- An element with another identifier, also inside it. -/
def Element.withId (id : String) : Element → Element
  | .node tag attributes text children =>
    .node tag (attributes.map (renameAttribute id)) text (childrenWithId id children)

/-- The children of an element with another identifier. -/
def childrenWithId (id : String) : List (Element × String) → List (Element × String)
  | [] => []
  | (child, tail) :: rest => (child.withId id, tail) :: childrenWithId id rest

end

/-- Whether an element has an identifier. -/
def Element.hasId (e : Element) : Bool := (e.attribute? "id").isSome

theorem Element.hasId_iff {e : Element} : e.hasId = true ↔ ∃ entry ∈ e.attributes, entry.1 = "id" := by
  unfold hasId attribute?
  rw [List.lookup_isSome_iff]
  simp only [beq_iff_eq, @eq_comm _ "id"]

theorem Element.hasId_eq_false_iff {e : Element} : e.hasId = false ↔ ∀ entry ∈ e.attributes, entry.1 ≠ "id" := by
  rw [← Bool.not_eq_true, hasId_iff]
  simp only [not_exists, not_and, ne_eq]

/-- A computation that has a result has done its first part and then the rest. -/
theorem exists_of_except_bind_ok {ε α β : Type} {m : Except ε α} {k : α → Except ε β} {r : β}
    (h : (m >>= k) = .ok r) : ∃ a, m = .ok a ∧ k a = .ok r := by
  cases m with
  | ok a => exact ⟨a, rfl, h⟩
  | error e => cases h

namespace Drawing

variable {id id' : String}

@[simp]
theorem rename_headReference (style : LineStyle) :
    (headReference style).map (renameAttribute id) = headReference style := by
  unfold headReference
  split
  · split <;> simp [renameAttribute]
  · rfl

@[simp]
theorem rename_colourStyle (property : String) (colour : Option String) :
    (colourStyle property colour).map (renameAttribute id) = colourStyle property colour := by
  unfold colourStyle
  split
  · rfl
  · split <;> simp [renameAttribute]

@[simp]
theorem withId_leaf (tag : String) (attributes : List (String × String)) :
    (Element.leaf tag attributes).withId id = .leaf tag (attributes.map (renameAttribute id)) := by
  simp [Element.leaf, Element.withId, childrenWithId]

/-- Breaks in a text have no identifier. -/
theorem withId_withText (tag : String) (attributes : List (String × String)) (text : String) :
    (withText tag attributes text).withId id = withText tag (attributes.map (renameAttribute id)) text := by
  have hbreaks (parts : List String) :
      childrenWithId id (parts.map fun part => (Element.leaf "xhtml:br" [], part)) =
        parts.map fun part => (Element.leaf "xhtml:br" [], part) := by
    induction parts with
    | nil => rfl
    | cons part parts ih => simp [childrenWithId, ih]
  unfold withText
  split
  · simp
  · simp [Element.withId, hbreaks]

/-- A path with another identifier is drawn as the same path with that identifier. -/
theorem linePath_withId (id' : String) {start finish : Point} {style : LineStyle} {stroke : Option String}
    {path : Element} (h : linePath id start finish style stroke = .ok path) :
    linePath id' start finish style stroke = .ok (path.withId id') ∧ path.hasId = true := by
  unfold linePath at h ⊢
  obtain ⟨first, hfirst, h⟩ := exists_of_except_bind_ok h
  obtain ⟨last, hlast, h⟩ := exists_of_except_bind_ok h
  cases h
  refine ⟨?_, ?_⟩
  · simp [hfirst, hlast, bind, Except.bind, pure, Except.pure, renameAttribute]
  · rw [Element.hasId_iff]
    exact ⟨("id", id), by simp [Element.leaf, Element.attributes], rfl⟩

/-- The text along a path refers to the path with another identifier. -/
theorem lineText_withId (text : String) (style : LineStyle) :
    (lineText id text style).withId id' = lineText id' text style := by
  unfold lineText
  simp only [Element.branch, Element.withId, List.map_cons, List.map_nil, childrenWithId, withId_withText]
  cases style.arrow <;> cases style.flipped <;> simp [renameAttribute]

end Drawing
end Pinboard
