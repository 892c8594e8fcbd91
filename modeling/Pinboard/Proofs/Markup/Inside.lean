import Pinboard.Drawing.TextBlock

/-!
# What is inside an element

`Element.elements` lists an element and all that is inside it. The form of an element is its tag with the names of
its attributes: all of an element but what it says. `Element.HasForms` says that an element and all that is inside
it have one of some forms.
-/

namespace Pinboard

mutual

/-- An element and all elements inside it. -/
def Element.elements : Element → List Element
  | .node tag attributes text children => .node tag attributes text children :: elementsIn children

/-- The children of an element and all elements inside them. -/
def elementsIn : List (Element × String) → List Element
  | [] => []
  | (child, _) :: rest => child.elements ++ elementsIn rest

end

theorem elementsIn_eq (children : List (Element × String)) :
    elementsIn children = children.flatMap fun child => child.1.elements := by
  induction children with
  | nil => rfl
  | cons child rest ih => rw [elementsIn, ih, List.flatMap_cons]

namespace Element

theorem mem_elements (e : Element) : e ∈ e.elements := by
  cases e
  simp [elements]

@[simp]
theorem elements_leaf (tag : String) (attributes : List (String × String)) :
    (leaf tag attributes).elements = [leaf tag attributes] := by
  simp [leaf, elements, elementsIn]

@[simp]
theorem elements_branch (tag : String) (attributes : List (String × String)) (children : List Element) :
    (branch tag attributes children).elements = branch tag attributes children :: children.flatMap elements := by
  simp [branch, elements, elementsIn_eq, List.flatMap_map]

@[simp]
theorem elements_onLines (tag : String) (attributes : List (String × String)) (text : String)
    (children : List Element) :
    (onLines tag attributes text children).elements =
      onLines tag attributes text children :: children.flatMap elements := by
  simp [onLines, elements, elementsIn_eq, List.flatMap_map]

/-- The tag of an element and the names of its attributes. -/
def form (e : Element) : String × List String := (e.tag, e.attributes.map Prod.fst)

/-- An element and all elements inside it have one of some forms. -/
def HasForms (forms : List (String × List String)) (e : Element) : Prop := ∀ x ∈ e.elements, x.form ∈ forms

variable {forms forms' : List (String × List String)}

theorem HasForms.mono {e : Element} (h : e.HasForms forms) (hle : forms ⊆ forms') : e.HasForms forms' :=
  fun x hx => hle (h x hx)

theorem HasForms.form_mem {e : Element} (h : e.HasForms forms) : e.form ∈ forms := h e e.mem_elements

@[simp]
theorem hasForms_leaf (tag : String) (attributes : List (String × String)) :
    (leaf tag attributes).HasForms forms ↔ (tag, attributes.map Prod.fst) ∈ forms := by
  rw [HasForms, elements_leaf, List.forall_mem_singleton]
  rfl

@[simp]
theorem hasForms_branch (tag : String) (attributes : List (String × String)) (children : List Element) :
    (branch tag attributes children).HasForms forms ↔
      (tag, attributes.map Prod.fst) ∈ forms ∧ ∀ child ∈ children, child.HasForms forms := by
  rw [HasForms, elements_branch, List.forall_mem_cons, List.forall_mem_flatMap]
  rfl

@[simp]
theorem hasForms_onLines (tag : String) (attributes : List (String × String)) (text : String)
    (children : List Element) :
    (onLines tag attributes text children).HasForms forms ↔
      (tag, attributes.map Prod.fst) ∈ forms ∧ ∀ child ∈ children, child.HasForms forms := by
  rw [HasForms, elements_onLines, List.forall_mem_cons, List.forall_mem_flatMap]
  rfl

end Element

namespace Drawing

/-- Inside a text there are breaks alone. -/
theorem mem_elements_withText {tag : String} {attributes : List (String × String)} {text : String} {e : Element}
    (h : e ∈ (withText tag attributes text).elements) :
    (e.tag = tag ∧ e.attributes = attributes) ∨ e = .leaf "xhtml:br" [] := by
  unfold withText at h
  split at h
  · rw [Element.elements_leaf, List.mem_singleton] at h
    rw [h]
    exact .inl ⟨rfl, rfl⟩
  · rw [Element.elements, elementsIn_eq, List.flatMap_map, List.mem_cons, List.mem_flatMap] at h
    rcases h with rfl | ⟨part, -, hpart⟩
    · exact .inl ⟨rfl, rfl⟩
    · rw [Element.elements_leaf, List.mem_singleton] at hpart
      exact .inr hpart

theorem hasForms_withText {forms : List (String × List String)} {tag : String} {attributes : List (String × String)}
    (hown : (tag, attributes.map Prod.fst) ∈ forms) (hbreak : ("xhtml:br", []) ∈ forms) (text : String) :
    (withText tag attributes text).HasForms forms := by
  intro e he
  rcases mem_elements_withText he with ⟨htag, hattributes⟩ | rfl
  · rw [Element.form, htag, hattributes]
    exact hown
  · exact hbreak

end Drawing
end Pinboard
