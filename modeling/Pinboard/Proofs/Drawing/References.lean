import Pinboard.Proofs.Drawing.Forms

/-!
# Identifiers and references

Paths and markers have identifiers; the text along a path refers to the path, and a path with a head refers to the
marker for it. Main statements: a line has one identifier, its path has it, and its text refers to it
(`IsLine.ids`, `IsLine.exists_path`, `IsLine.textPath`); the heads of lines are those of a document
(`IsLine.head`, `Document.exists_marker`); and a document has the identifiers of the markers and those of its
fragments (`Document.ids_root`).
-/

namespace Pinboard

/-- The elements of a fragment and all elements inside them. -/
def elementsOf (fragment : List Element) : List Element := fragment.flatMap Element.elements

theorem elementsOf_append (fragment fragment' : List Element) :
    elementsOf (fragment ++ fragment') = elementsOf fragment ++ elementsOf fragment' := List.flatMap_append

/-- The identifiers of some elements, in their order. -/
def idsOf (es : List Element) : List String := es.filterMap fun e => e.attribute? "id"

theorem idsOf_append (es es' : List Element) : idsOf (es ++ es') = idsOf es ++ idsOf es' := List.filterMap_append

theorem idsOf_cons {e : Element} (h : e.attribute? "id" = none) (es : List Element) : idsOf (e :: es) = idsOf es :=
  List.filterMap_cons_none h

section
variable {e : Element} {fragment : List Element} {forms : List (String × List String)} {name : String}

/-- An element has no attribute that is not among the names of its form. -/
theorem Element.attribute?_eq_none (h : name ∉ e.form.2) : e.attribute? name = none := by
  rw [attribute?, List.lookup_eq_none_iff]
  intro entry hentry
  rw [bne_iff_ne]
  rintro rfl
  exact h (List.mem_map_of_mem hentry)

theorem form_mem_of_mem (h : ∀ e ∈ fragment, e.HasForms forms) (he : e ∈ elementsOf fragment) : e.form ∈ forms := by
  obtain ⟨figure, hfigure, he⟩ := List.mem_flatMap.1 he
  exact h figure hfigure e he

theorem attribute?_eq_none_of_mem (h : ∀ e ∈ fragment, e.HasForms forms) (hnone : ∀ form ∈ forms, name ∉ form.2)
    (he : e ∈ elementsOf fragment) : e.attribute? name = none :=
  Element.attribute?_eq_none (hnone _ (form_mem_of_mem h he))

theorem idsOf_eq_nil (h : ∀ e ∈ fragment, e.HasForms forms) (hnone : ∀ form ∈ forms, "id" ∉ form.2) :
    idsOf (elementsOf fragment) = [] :=
  List.filterMap_eq_nil_iff.2 fun _ he => attribute?_eq_none_of_mem h hnone he

end

namespace Drawing

/-! ## Lines -/

theorem lookup_colourStyle {name property : String} {colour : Option String} (h : name ≠ "style") :
    (colourStyle property colour).lookup name = none := by
  rw [List.lookup_eq_none_iff]
  intro entry hentry
  rw [bne_iff_ne]
  rintro rfl
  unfold colourStyle at hentry
  split at hentry
  · cases hentry
  · split at hentry
    · cases hentry
    · rw [List.mem_singleton] at hentry
      exact h (by rw [hentry])

/-- The attributes of a path by their names. -/
theorem linePath_attributes {id : String} {start finish : Point} {style : LineStyle} {stroke : Option String}
    {path : Element} (h : linePath id start finish style stroke = .ok path) :
    path.elements = [path] ∧ path.tag = "path" ∧ path.attribute? "id" = some id ∧
      ∀ name, name = "marker-start" ∨ name = "marker-end" →
        path.attribute? name = (headReference style).lookup name := by
  obtain ⟨d, rfl⟩ := linePath_eq h
  have hhead : (headReference style).lookup "id" = none := by
    unfold headReference
    split
    · split <;> simp [List.lookup_cons]
    · rfl
  refine ⟨Element.elements_leaf _ _, rfl, ?_, ?_⟩
  · simp [Element.attribute?, Element.leaf, Element.attributes, List.lookup_append, hhead, lookup_colourStyle,
      List.lookup_cons]
  · rintro name (rfl | rfl) <;>
      simp [Element.attribute?, Element.leaf, Element.attributes, List.lookup_append, lookup_colourStyle,
        List.lookup_cons]

/-- The text along a path refers to its identifier. -/
theorem lineText_textPath {id text : String} {style : LineStyle} {e : Element}
    (he : e ∈ (lineText id text style).elements) (htag : e.tag = "textPath") :
    e.attribute? "xlink:href" = some ("#" ++ id) := by
  rw [lineText, Element.elements_branch, List.flatMap_singleton, List.mem_cons] at he
  rcases he with rfl | he
  · simp [Element.branch, Element.tag] at htag
  · rcases mem_elements_withText he with ⟨-, hattributes⟩ | rfl
    · simp [Element.attribute?, hattributes]
    · simp [Element.leaf, Element.tag] at htag

namespace IsLine

variable {id : String} {fragment : List Element}

/-- The path of a line stands first in its fragment, and has the identifier of the line. There is no other path. -/
theorem exists_path (h : IsLine id fragment) :
    ∃ path rest, fragment = path :: rest ∧ path.tag = "path" ∧ path.attribute? "id" = some id ∧
      ∀ e ∈ elementsOf rest, e.tag ≠ "path" := by
  obtain ⟨start, finish, style, stroke, path, hpath, hfragment⟩ := h
  obtain ⟨-, htag, hid, -⟩ := linePath_attributes hpath
  rcases hfragment with rfl | ⟨text, rfl⟩
  · exact ⟨path, [], rfl, htag, hid, nofun⟩
  · refine ⟨path, _, rfl, htag, hid, ?_⟩
    have hforms : ∀ e ∈ [lineText id text style], e.HasForms lineTextForms := by
      simpa using lineText_forms id text style
    have hnone : ∀ form ∈ lineTextForms, form.1 ≠ "path" := by decide
    exact fun e he => hnone _ (form_mem_of_mem hforms he)

theorem ids (h : IsLine id fragment) : idsOf (elementsOf fragment) = [id] := by
  obtain ⟨start, finish, style, stroke, path, hpath, hfragment⟩ := h
  obtain ⟨helements, -, hid, -⟩ := linePath_attributes hpath
  have hown : idsOf (elementsOf [path]) = [id] := by
    simp [elementsOf, helements, idsOf, hid]
  rcases hfragment with rfl | ⟨text, rfl⟩
  · exact hown
  · have htext : idsOf (elementsOf [lineText id text style]) = [] :=
      idsOf_eq_nil (by simpa using lineText_forms id text style) (by decide)
    have hsplit : [path, lineText id text style] = [path] ++ [lineText id text style] := rfl
    rw [hsplit, elementsOf_append, idsOf_append, hown, htext, List.append_nil]

theorem textPath (h : IsLine id fragment) {e : Element} (he : e ∈ elementsOf fragment) (htag : e.tag = "textPath") :
    e.attribute? "xlink:href" = some ("#" ++ id) := by
  obtain ⟨start, finish, style, stroke, path, hpath, hfragment⟩ := h
  obtain ⟨helements, hpathTag, -, -⟩ := linePath_attributes hpath
  have hother : e ∉ path.elements := by
    rw [helements, List.mem_singleton]
    rintro rfl
    rw [hpathTag] at htag
    simp at htag
  rcases hfragment with rfl | ⟨text, rfl⟩
  · simp [elementsOf, hother] at he
  · simp only [elementsOf, List.flatMap_cons, List.flatMap_nil, List.append_nil, List.mem_append, hother,
      false_or] at he
    exact lineText_textPath he htag

/-- A head of a line is one of the two heads. -/
theorem head (h : IsLine id fragment) {e : Element} (he : e ∈ elementsOf fragment) {name reference : String}
    (hname : name = "marker-start" ∨ name = "marker-end") (hreference : e.attribute? name = some reference) :
    reference = "url(#arrow_l2r)" ∨ reference = "url(#arrow_r2l)" := by
  obtain ⟨start, finish, style, stroke, path, hpath, hfragment⟩ := h
  obtain ⟨helements, -, -, hheads⟩ := linePath_attributes hpath
  have hown (hpath : e ∈ path.elements) : reference = "url(#arrow_l2r)" ∨ reference = "url(#arrow_r2l)" := by
    rw [helements, List.mem_singleton] at hpath
    rw [hpath, hheads name hname] at hreference
    unfold headReference at hreference
    split at hreference
    · split at hreference <;> rcases hname with rfl | rfl <;> simp_all [List.lookup_cons]
    · cases hreference
  rcases hfragment with rfl | ⟨text, rfl⟩
  · exact hown (by simpa [elementsOf] using he)
  · simp only [elementsOf, List.flatMap_cons, List.flatMap_nil, List.append_nil, List.mem_append] at he
    rcases he with he | he
    · exact hown he
    · have hnone : ∀ form ∈ lineTextForms, "marker-start" ∉ form.2 ∧ "marker-end" ∉ form.2 := by decide
      have hform := hnone _ (lineText_forms id text style e he)
      have hattribute : e.attribute? name = none := by
        rcases hname with rfl | rfl
        · exact Element.attribute?_eq_none hform.1
        · exact Element.attribute?_eq_none hform.2
      cases hattribute.symm.trans hreference

end IsLine
end Drawing

/-! ## Documents -/

namespace Document

theorem form_root (width height : Int) (elements : List Element) :
    (root width height elements).form = ("svg", ["xmlns:xhtml", "xmlns:xlink", "xmlns", "viewBox"]) := rfl

theorem elements_root (width height : Int) (elements : List Element) :
    (root width height elements).elements =
      root width height elements :: (elementsOf [styleDefinitions, Drawing.markers] ++ elementsOf elements) := by
  rw [root, Element.elements_onLines]
  simp [elementsOf]

theorem idsOf_definitions : idsOf (elementsOf [styleDefinitions, Drawing.markers]) = ["dot", "arrow_l2r", "arrow_r2l"] := by
  rfl

/-- A document has the identifiers of its markers and those of its fragments. -/
theorem ids_root (width height : Int) (elements : List Element) :
    idsOf (root width height elements).elements =
      ["dot", "arrow_l2r", "arrow_r2l"] ++ idsOf (elementsOf elements) := by
  have hroot : (root width height elements).attribute? "id" = none := by
    refine Element.attribute?_eq_none ?_
    rw [form_root]
    decide
  rw [elements_root, idsOf_cons hroot, idsOf_append, idsOf_definitions]

/-- The heads are defined in every document. -/
theorem exists_marker (width height : Int) (elements : List Element) {reference : String}
    (h : reference = "url(#arrow_l2r)" ∨ reference = "url(#arrow_r2l)") :
    ∃ marker ∈ (root width height elements).elements, marker.tag = "marker" ∧
      ∃ id, marker.attribute? "id" = some id ∧ reference = "url(#" ++ id ++ ")" := by
  have hmem {e : Element} (he : e ∈ elementsOf [styleDefinitions, Drawing.markers]) :
      e ∈ (root width height elements).elements := by
    rw [elements_root]
    exact List.mem_cons_of_mem _ (List.mem_append_left _ he)
  rcases h with rfl | rfl
  · refine ⟨Drawing.arrowHead "arrow_l2r" "10" "M 0 0 L 10 5 L 0 10 z", hmem ?_, rfl, "arrow_l2r", rfl, rfl⟩
    simp [elementsOf, Drawing.markers, Drawing.arrowHead]
  · refine ⟨Drawing.arrowHead "arrow_r2l" "0" "M 10 0 L 0 5 L 10 10 z", hmem ?_, rfl, "arrow_r2l", rfl, rfl⟩
    simp [elementsOf, Drawing.markers, Drawing.arrowHead]

end Document
end Pinboard
