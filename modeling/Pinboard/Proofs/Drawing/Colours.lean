import Pinboard.Proofs.Drawing.References

/-!
# Colours of elements

A figure has the fill colour for its style and a path the stroke colour, if there is one; what belongs to a text has a
style of its own, or none, in which no colour is set (`Element.IsPainted`). Main statements: so it is for all elements
that shapes are put together of (`rectangle_isPainted`, `polygon_isPainted`, `textBlock_isPainted`), and for those of
lines (`linePath_isPainted`, `lineText_isPainted`).
-/

namespace Pinboard

/-- A style that sets neither of the colours. -/
def IsColourless (style : Option String) : Prop :=
  ∀ colour, style ≠ some ("fill: #" ++ colour) ∧ style ≠ some ("stroke:#" ++ colour)

/-- An element has the colour of its kind, and no other. -/
structure Element.IsPainted (fill stroke : Option String) (e : Element) : Prop where
  figure : e.tag = "rect" ∨ e.tag = "polygon" → e.attribute? "style" = fill.map ("fill: #" ++ ·)
  path : e.tag = "path" → e.attribute? "style" = stroke.map ("stroke:#" ++ ·)
  other : e.tag ∉ ["rect", "polygon", "path"] → IsColourless (e.attribute? "style")

theorem isColourless_none : IsColourless none := fun _ => ⟨nofun, nofun⟩

/-- A style is known by its first letter. -/
theorem isColourless_of_head {style : String} {c : Char} (hhead : style.toList.head? = some c) (hfill : c ≠ 'f')
    (hstroke : c ≠ 's') : IsColourless (some style) := by
  intro colour
  have hne {property : String} {d : Char} (hproperty : property.toList.head? = some d) (hd : c ≠ d) :
      some style ≠ some (property ++ colour) := by
    intro h
    rw [Option.some.inj h, String.toList_append, List.head?_append, hproperty] at hhead
    exact hd (Option.some.inj hhead).symm
  exact ⟨hne (d := 'f') (by decide) hfill, hne (d := 's') (by decide) hstroke⟩

section
variable {fill stroke : Option String} {e : Element}

theorem Element.isPainted_of_other (htag : e.tag ∉ ["rect", "polygon", "path"])
    (hstyle : IsColourless (e.attribute? "style")) : e.IsPainted fill stroke := by
  simp only [List.mem_cons, List.not_mem_nil, or_false, not_or] at htag
  obtain ⟨hrect, hpolygon, hpath⟩ := htag
  exact ⟨fun h => (h.elim hrect hpolygon).elim, fun h => (hpath h).elim, fun _ => hstyle⟩

/-- An element with others inside it, whose style begins with another letter. -/
theorem Element.elements_branch_isPainted {tag style : String} {attributes : List (String × String)}
    {children : List Element} {c : Char} (htag : tag ∉ ["rect", "polygon", "path"])
    (hstyle : attributes.lookup "style" = some style) (hhead : style.toList.head? = some c) (hfill : c ≠ 'f')
    (hstroke : c ≠ 's') (h : ∀ child ∈ children, ∀ e ∈ child.elements, e.IsPainted fill stroke) :
    ∀ e ∈ (Element.branch tag attributes children).elements, e.IsPainted fill stroke := by
  rw [elements_branch, List.forall_mem_cons, List.forall_mem_flatMap]
  refine ⟨isPainted_of_other htag ?_, h⟩
  rw [attribute?, branch, Element.attributes, hstyle]
  exact isColourless_of_head hhead hfill hstroke

namespace Drawing

theorem lookup_style_colourStyle {colour : Option String} (property : String) (h : colour ≠ some "") :
    (colourStyle property colour).lookup "style" = colour.map (property ++ ·) := by
  unfold colourStyle
  split
  next => rfl
  next colour =>
    have hempty : colour.isEmpty = false := by simpa using h
    rw [hempty]
    rfl

theorem lookup_eq_none_of_names {name : String} {attributes : List (String × String)}
    (h : name ∉ attributes.map Prod.fst) : attributes.lookup name = none :=
  Element.attribute?_eq_none (e := .leaf "" attributes) h

/-! ## Shapes -/

theorem rectangle_isPainted {a : Area} {radius : Option Binary64} {figure : Element} (hfill : fill ≠ some "")
    (h : rectangle a fill radius = .ok figure) : ∀ e ∈ figure.elements, e.IsPainted fill stroke := by
  obtain ⟨place, corners, hplace, hcorners, rfl⟩ := rectangle_eq h
  have hnone : place.lookup "style" = none := lookup_eq_none_of_names (by simp [hplace])
  have hnone' : corners.lookup "style" = none := by
    refine lookup_eq_none_of_names fun hmem => ?_
    have hoptional : ∀ names ∈ optional ["rx", "ry"], "style" ∉ names := by decide
    exact hoptional _ hcorners hmem
  have hstyle : (Element.leaf "rect" (place ++ corners ++ fillStyle fill)).attribute? "style" =
      fill.map ("fill: #" ++ ·) := by
    rw [Element.attribute?, Element.leaf, Element.attributes, List.lookup_append, List.lookup_append, hnone, hnone',
      fillStyle, lookup_style_colourStyle _ hfill]
    rfl
  rw [Element.elements_leaf, List.forall_mem_singleton]
  exact ⟨fun _ => hstyle, by simp [Element.leaf, Element.tag], by simp [Element.leaf, Element.tag]⟩

theorem polygon_isPainted {points : List Point} {figure : Element} (hfill : fill ≠ some "")
    (h : polygon points fill = .ok figure) : ∀ e ∈ figure.elements, e.IsPainted fill stroke := by
  obtain ⟨outline, rfl⟩ := polygon_eq h
  have hstyle : (Element.leaf "polygon" (("points", outline) :: fillStyle fill)).attribute? "style" =
      fill.map ("fill: #" ++ ·) := lookup_style_colourStyle _ hfill
  rw [Element.elements_leaf, List.forall_mem_singleton]
  exact ⟨fun _ => hstyle, by simp [Element.leaf, Element.tag], by simp [Element.leaf, Element.tag]⟩

theorem withText_isPainted {tag : String} {attributes : List (String × String)} (text : String)
    (htag : tag ∉ ["rect", "polygon", "path"]) (hstyle : IsColourless (attributes.lookup "style")) :
    ∀ e ∈ (withText tag attributes text).elements, e.IsPainted fill stroke := by
  intro e he
  rcases mem_elements_withText he with ⟨rfl, rfl⟩ | rfl
  · exact Element.isPainted_of_other htag hstyle
  · exact Element.isPainted_of_other (by simp [Element.leaf, Element.tag]) isColourless_none

theorem cell_isPainted (style : CellStyle) (firstRow : Bool) (column : Nat) (text : String) :
    ∀ e ∈ (cell style firstRow column text).elements, e.IsPainted fill stroke := by
  refine Element.elements_branch_isPainted (c := 'd') (by decide) rfl (by simp) (by decide) (by decide) ?_
  rw [List.forall_mem_singleton]
  refine withText_isPainted text (by decide) ?_
  exact isColourless_of_head (c := 'c') (by simp) (by decide) (by decide)

theorem textBlock_isPainted {a : Area} {texts : List String} {columns : Nat} {css : String} {block : Element}
    (h : textBlock a texts columns css = .ok block) : ∀ e ∈ block.elements, e.IsPainted fill stroke := by
  obtain ⟨place, hplace, h⟩ := exists_of_except_bind_ok h
  obtain ⟨height, -, h⟩ := exists_of_except_bind_ok h
  obtain ⟨quotient, -, h⟩ := exists_of_except_bind_ok h
  obtain ⟨width, -, h⟩ := exists_of_except_bind_ok h
  cases h
  rw [Element.elements_branch, List.forall_mem_cons, List.flatMap_singleton]
  refine ⟨Element.isPainted_of_other (by simp [Element.branch, Element.tag]) ?_, ?_⟩
  · have hnone : (place ++ [("transform", "translate(0,0)")]).lookup "style" = none :=
      lookup_eq_none_of_names (by simp [areaAttributes_names hplace])
    rw [Element.attribute?, Element.branch, Element.attributes, hnone]
    exact isColourless_none
  · refine Element.elements_branch_isPainted (c := 'd') (by decide) rfl (by simp) (by decide) (by decide) ?_
    intro row hrow
    obtain ⟨index, _, rfl⟩ := List.mem_mapIdx.1 hrow
    refine Element.elements_branch_isPainted (c := 'd') (by decide) rfl (by decide) (by decide) (by decide) ?_
    intro child hchild
    obtain ⟨column, _, rfl⟩ := List.mem_mapIdx.1 hchild
    exact cell_isPainted _ _ _ _

/-! ## Lines -/

theorem linePath_isPainted {id : String} {start finish : Point} {style : LineStyle} {path : Element}
    (hstroke : stroke ≠ some "") (h : linePath id start finish style stroke = .ok path) :
    ∀ e ∈ path.elements, e.IsPainted fill stroke := by
  obtain ⟨d, rfl⟩ := linePath_eq h
  have hnone : (headReference style).lookup "style" = none := by
    refine lookup_eq_none_of_names fun hmem => ?_
    have hoptional : ∀ names ∈ optional ["marker-start"] ++ optional ["marker-end"], "style" ∉ names := by decide
    exact hoptional _ (headReference_names style) hmem
  have hstyle : (Element.leaf "path" (headReference style ++ colourStyle "stroke:#" stroke ++
      [("class", "line"), ("id", id), ("d", d)])).attribute? "style" = stroke.map ("stroke:#" ++ ·) := by
    rw [Element.attribute?, Element.leaf, Element.attributes, List.lookup_append, List.lookup_append, hnone,
      lookup_style_colourStyle _ hstroke]
    simp [List.lookup_cons]
  rw [Element.elements_leaf, List.forall_mem_singleton]
  exact ⟨by simp [Element.leaf, Element.tag], fun _ => hstyle, by simp [Element.leaf, Element.tag]⟩

theorem lineText_isPainted (id text : String) (style : LineStyle) :
    ∀ e ∈ (lineText id text style).elements, e.IsPainted fill stroke := by
  rw [lineText, Element.elements_branch, List.forall_mem_cons, List.flatMap_singleton]
  refine ⟨Element.isPainted_of_other (by simp [Element.branch, Element.tag]) ?_, ?_⟩
  · have hturn : IsColourless (some flippedText) :=
      isColourless_of_head (c := 't') (by decide) (by decide) (by decide)
    cases style.arrow <;> cases style.flipped <;>
      simp [Element.attribute?, Element.branch, Element.attributes, List.lookup_cons, isColourless_none, hturn]
  · exact withText_isPainted text (by decide) isColourless_none

end Drawing
end
end Pinboard
