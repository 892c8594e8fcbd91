import Pinboard.Chart.Document
import Pinboard.Proofs.Drawing.Identifiers
import Pinboard.Proofs.Markup.Inside

/-!
# The forms of what is drawn

There are few forms of elements, and no text, colour or place has a part in which of them a figure has: a text may
ask for breaks, and a colour for a style. Main statements: the figures of shapes have `shapeForms`
(`rectangle_forms`, `polygon_forms`, `textBlock_forms`), and so have no identifiers; the fragment of a line has
`pathForms` and `lineTextForms` (`IsLine.forms`); and a document has `documentForms` in addition to those of its fragments
(`Document.root_forms`).
-/

namespace Pinboard

/-- Attributes that may be missing, all or none of them. -/
def optional (names : List String) : List (List String) := [[], names]

/-- The forms of the elements of shapes. -/
def shapeForms : List (String × List String) :=
  ((optional ["rx", "ry"]).flatMap fun corners =>
      (optional ["style"]).map fun style => ("rect", ["x", "y", "width", "height"] ++ corners ++ style))
    ++ (optional ["style"]).map (fun style => ("polygon", "points" :: style))
    ++ [("foreignObject", ["x", "y", "width", "height", "transform"]), ("xhtml:div", ["style"]),
        ("xhtml:div", ["style", "class"]), ("xhtml:br", [])]

/-- The forms of paths. -/
def pathForms : List (String × List String) :=
  (optional ["marker-start"] ++ optional ["marker-end"]).flatMap fun head =>
    (optional ["style"]).map fun style => ("path", head ++ style ++ ["class", "id", "d"])

/-- The forms of the elements of a text along a path. -/
def lineTextForms : List (String × List String) :=
  ((optional ["dx"]).flatMap fun shift => (optional ["style"]).map fun turn => ("text", "dy" :: shift ++ turn))
    ++ [("textPath", ["xlink:href", "startOffset", "class"]), ("xhtml:br", [])]

/-- The forms of the other elements of a document. -/
def documentForms : List (String × List String) :=
  [("svg", ["xmlns:xhtml", "xmlns:xlink", "xmlns", "viewBox"]), ("defs", []), ("style", ["type"]),
   ("marker", ["id", "viewBox", "refX", "refY", "markerUnits", "markerWidth", "markerHeight", "orient", "class"]),
   ("marker", ["id", "viewBox", "refX", "refY", "markerUnits", "markerWidth", "markerHeight", "orient", "style"]),
   ("circle", ["cx", "cy", "r"]), ("path", ["d"])]

namespace Drawing

/-! ## Shapes -/

theorem colourStyle_names (property : String) (colour : Option String) :
    (colourStyle property colour).map Prod.fst ∈ optional ["style"] := by
  unfold colourStyle
  split
  · simp [optional]
  · split <;> simp [optional]

theorem areaAttributes_names {a : Area} {place : List (String × String)} (h : areaAttributes a = .ok place) :
    place.map Prod.fst = ["x", "y", "width", "height"] := by
  obtain ⟨x, -, h⟩ := exists_of_except_bind_ok h
  obtain ⟨y, -, h⟩ := exists_of_except_bind_ok h
  obtain ⟨width, -, h⟩ := exists_of_except_bind_ok h
  obtain ⟨height, -, h⟩ := exists_of_except_bind_ok h
  cases h
  rfl

theorem rectangle_eq {a : Area} {fill : Option String} {radius : Option Binary64} {figure : Element}
    (h : rectangle a fill radius = .ok figure) :
    ∃ place corners, place.map Prod.fst = ["x", "y", "width", "height"] ∧
      corners.map Prod.fst ∈ optional ["rx", "ry"] ∧ figure = .leaf "rect" (place ++ corners ++ fillStyle fill) := by
  obtain ⟨place, hplace, h⟩ := exists_of_except_bind_ok h
  refine ⟨place, ?_⟩
  cases radius with
  | none =>
    cases h
    exact ⟨[], areaAttributes_names hplace, by simp [optional], rfl⟩
  | some radius =>
    obtain ⟨rx, -, h⟩ := exists_of_except_bind_ok h
    cases h
    exact ⟨[("rx", rx), ("ry", rx)], areaAttributes_names hplace, by simp [optional], rfl⟩

theorem rectangle_forms {a : Area} {fill : Option String} {radius : Option Binary64} {figure : Element}
    (h : rectangle a fill radius = .ok figure) : figure.HasForms shapeForms := by
  obtain ⟨place, corners, hplace, hcorners, rfl⟩ := rectangle_eq h
  have hstyle := colourStyle_names "fill: #" fill
  rw [Element.hasForms_leaf, shapeForms]
  refine List.mem_append_left _ (List.mem_append_left _ (List.mem_flatMap.2 ⟨_, hcorners, ?_⟩))
  refine List.mem_map.2 ⟨_, hstyle, ?_⟩
  simp [hplace, fillStyle]

theorem polygon_eq {points : List Point} {fill : Option String} {figure : Element}
    (h : polygon points fill = .ok figure) :
    ∃ outline, figure = .leaf "polygon" (("points", outline) :: fillStyle fill) := by
  obtain ⟨texts, -, h⟩ := exists_of_except_bind_ok h
  cases h
  exact ⟨_, rfl⟩

theorem polygon_forms {points : List Point} {fill : Option String} {figure : Element}
    (h : polygon points fill = .ok figure) : figure.HasForms shapeForms := by
  obtain ⟨outline, rfl⟩ := polygon_eq h
  have hstyle := colourStyle_names "fill: #" fill
  rw [Element.hasForms_leaf, shapeForms]
  exact List.mem_append_left _ (List.mem_append_right _ (List.mem_map.2 ⟨_, hstyle, rfl⟩))

theorem cell_forms (style : CellStyle) (firstRow : Bool) (column : Nat) (text : String) :
    (cell style firstRow column text).HasForms shapeForms := by
  rw [cell, Element.hasForms_branch, List.forall_mem_singleton]
  exact ⟨by simp [shapeForms], hasForms_withText (by simp [shapeForms]) (by simp [shapeForms]) text⟩

theorem row_forms (style : CellStyle) (firstRow : Bool) (texts : List String) :
    (row style firstRow texts).HasForms shapeForms := by
  rw [row, Element.hasForms_branch]
  refine ⟨by simp [shapeForms], fun e he => ?_⟩
  obtain ⟨column, _, rfl⟩ := List.mem_mapIdx.1 he
  exact cell_forms style firstRow column _

theorem textBlock_forms {a : Area} {texts : List String} {columns : Nat} {css : String} {block : Element}
    (h : textBlock a texts columns css = .ok block) : block.HasForms shapeForms := by
  obtain ⟨place, hplace, h⟩ := exists_of_except_bind_ok h
  obtain ⟨height, -, h⟩ := exists_of_except_bind_ok h
  obtain ⟨quotient, -, h⟩ := exists_of_except_bind_ok h
  obtain ⟨width, -, h⟩ := exists_of_except_bind_ok h
  cases h
  rw [Element.hasForms_branch, List.forall_mem_singleton, Element.hasForms_branch]
  refine ⟨by simp [areaAttributes_names hplace, shapeForms], by simp [shapeForms], fun e he => ?_⟩
  obtain ⟨index, _, rfl⟩ := List.mem_mapIdx.1 he
  exact row_forms _ _ _

/-- No element of a shape has an identifier. -/
theorem hasId_of_forms {e : Element} (h : e.HasForms shapeForms) : e.hasId = false := by
  have hnone : ∀ form ∈ shapeForms, "id" ∉ form.2 := by decide
  rw [Element.hasId_eq_false_iff]
  intro entry hentry hid
  exact hnone _ h.form_mem (List.mem_map.2 ⟨entry, hentry, hid⟩)

/-! ## Lines -/

theorem headReference_names (style : LineStyle) :
    (headReference style).map Prod.fst ∈ optional ["marker-start"] ++ optional ["marker-end"] := by
  unfold headReference
  split
  · split <;> simp [optional]
  · simp [optional]

theorem linePath_eq {id : String} {start finish : Point} {style : LineStyle} {stroke : Option String} {path : Element}
    (h : linePath id start finish style stroke = .ok path) :
    ∃ d, path = .leaf "path"
      (headReference style ++ colourStyle "stroke:#" stroke ++ [("class", "line"), ("id", id), ("d", d)]) := by
  obtain ⟨first, -, h⟩ := exists_of_except_bind_ok h
  obtain ⟨last, -, h⟩ := exists_of_except_bind_ok h
  cases h
  exact ⟨_, rfl⟩

theorem linePath_forms {id : String} {start finish : Point} {style : LineStyle} {stroke : Option String}
    {path : Element} (h : linePath id start finish style stroke = .ok path) : path.HasForms pathForms := by
  obtain ⟨d, rfl⟩ := linePath_eq h
  have hhead := headReference_names style
  have hstyle := colourStyle_names "stroke:#" stroke
  rw [Element.hasForms_leaf, pathForms]
  exact List.mem_flatMap.2 ⟨_, hhead, List.mem_map.2 ⟨_, hstyle, by simp⟩⟩

theorem lineText_forms (id text : String) (style : LineStyle) : (lineText id text style).HasForms lineTextForms := by
  rw [lineText, Element.hasForms_branch, List.forall_mem_singleton]
  refine ⟨?_, hasForms_withText (by simp [lineTextForms]) (by simp [lineTextForms]) text⟩
  cases style.arrow <;> cases style.flipped <;> simp [lineTextForms, optional]

/-- What is drawn for a line: a path with an identifier and, unless it has no text, the text along the path. -/
def IsLine (id : String) (fragment : List Element) : Prop :=
  ∃ start finish style stroke path, linePath id start finish style stroke = .ok path ∧
    (fragment = [path] ∨ ∃ text, fragment = [path, lineText id text style])

theorem IsLine.forms {id : String} {fragment : List Element} (h : IsLine id fragment) :
    ∀ e ∈ fragment, e.HasForms (pathForms ++ lineTextForms) := by
  obtain ⟨start, finish, style, stroke, path, hpath, hfragment⟩ := h
  have hown : path.HasForms (pathForms ++ lineTextForms) :=
    (linePath_forms hpath).mono (List.subset_append_left _ _)
  rcases hfragment with rfl | ⟨text, rfl⟩
  · simpa using hown
  · have htext := (lineText_forms id text style).mono (List.subset_append_right pathForms lineTextForms)
    simpa using And.intro hown htext

/-! ## Documents -/

theorem markers_forms : markers.HasForms documentForms := by
  simp [markers, dotMarker, arrowHead, documentForms]

end Drawing

theorem Document.styleDefinitions_forms : styleDefinitions.HasForms documentForms := by
  simp [styleDefinitions, Element.HasForms, Element.elements, elementsIn, Element.form, Element.tag,
    Element.attributes, Element.branch, documentForms]

theorem Document.root_forms {forms : List (String × List String)} (hforms : documentForms ⊆ forms)
    {elements : List Element} (h : ∀ e ∈ elements, e.HasForms forms) (width height : Int) :
    (root width height elements).HasForms forms := by
  rw [root, Element.hasForms_onLines, List.forall_mem_cons, List.forall_mem_cons]
  refine ⟨hforms ?_, styleDefinitions_forms.mono hforms, Drawing.markers_forms.mono hforms, h⟩
  simp [documentForms]

end Pinboard
