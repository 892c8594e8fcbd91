import Pinboard.Chart.PinTable

/-!
# Tables of pins

What setting pins one after the other does to a table: the names that come with them (`mem_names_setAll`),
the points of all other names (`point?_setAll`), and that finite points stay finite (`IsFinite.setAll`).
-/

namespace Pinboard.PinTable

variable {t : PinTable} {name : String} {p : Point} {pins : List (String × Point)}

/-- Every pin of the table lies at a finite point. -/
def IsFinite (t : PinTable) : Prop := ∀ e ∈ t.entries, e.2.isFinite = true

/-! ## One pin -/

theorem mem_setEntry {entries : List (String × Point)} {e : String × Point} (he : e ∈ setEntry name p entries) :
    e.2 = p ∨ e ∈ entries := by
  induction entries with
  | nil =>
    rw [setEntry, List.mem_singleton] at he
    exact .inl (by rw [he])
  | cons entry rest ih =>
    rw [setEntry] at he
    split at he
    · rcases List.mem_cons.1 he with rfl | hr
      · exact .inl rfl
      · exact .inr (List.mem_cons_of_mem _ hr)
    · rcases List.mem_cons.1 he with rfl | hr
      · exact .inr List.mem_cons_self
      · exact (ih hr).imp id (List.mem_cons_of_mem _)

theorem IsFinite.set (h : t.IsFinite) (hp : p.isFinite = true) : (t.set name p).IsFinite := by
  intro e he
  rcases mem_setEntry he with rfl | he
  · exact hp
  · exact h e he

theorem mem_names_iff (t : PinTable) (name : String) : name ∈ t.names ↔ (t.point? name).isSome = true := by
  obtain ⟨entries⟩ := t
  show name ∈ entries.map Prod.fst ↔ (entries.lookup name).isSome = true
  induction entries with
  | nil => simp
  | cons entry rest ih =>
    obtain ⟨key, q⟩ := entry
    by_cases h : name = key
    · simp [h]
    · simp [List.lookup_cons, beq_false_of_ne h, h, ih]

@[simp]
theorem mem_names_set (t : PinTable) (name other : String) (p : Point) :
    other ∈ (t.set name p).names ↔ other = name ∨ other ∈ t.names := by
  rw [mem_names_iff, mem_names_iff, point?_set]
  split
  next h => simp [h]
  next h => simp [h]

theorem IsFinite.point (h : t.IsFinite) (hp : t.point? name = some p) : p.isFinite = true := by
  obtain ⟨entries⟩ := t
  have hmem : (name, p) ∈ entries := by
    simp only [point?] at hp
    clear h
    induction entries with
    | nil => cases hp
    | cons entry rest ih =>
      obtain ⟨key, q⟩ := entry
      by_cases hk : name = key
      · subst hk
        simp at hp
        simp [hp]
      · rw [List.lookup_cons, beq_false_of_ne hk] at hp
        exact List.mem_cons_of_mem _ (ih hp)
  exact h _ hmem

/-! ## Several pins -/

@[simp]
theorem setAll_nil (t : PinTable) : t.setAll [] = t := rfl

@[simp]
theorem setAll_cons (t : PinTable) (pin : String × Point) :
    t.setAll (pin :: pins) = (t.set pin.1 pin.2).setAll pins := rfl

theorem setAll_append (t : PinTable) (pins more : List (String × Point)) :
    t.setAll (pins ++ more) = (t.setAll pins).setAll more :=
  List.foldl_append

theorem IsFinite.setAll (h : t.IsFinite) (hpins : ∀ e ∈ pins, e.2.isFinite = true) : (t.setAll pins).IsFinite := by
  induction pins generalizing t with
  | nil => exact h
  | cons pin pins ih =>
    obtain ⟨hpin, hrest⟩ := List.forall_mem_cons.1 hpins
    exact ih (h.set hpin) hrest

/-- Setting pins adds their names and takes none away. -/
theorem mem_names_setAll (t : PinTable) (pins : List (String × Point)) (name : String) :
    name ∈ (t.setAll pins).names ↔ name ∈ pins.map Prod.fst ∨ name ∈ t.names := by
  induction pins generalizing t with
  | nil => simp
  | cons pin pins ih =>
    rw [setAll_cons, ih, mem_names_set, List.map_cons, List.mem_cons]
    constructor
    · rintro (h | h | h)
      · exact .inl (.inr h)
      · exact .inl (.inl h)
      · exact .inr h
    · rintro ((h | h) | h)
      · exact .inr (.inl h)
      · exact .inl h
      · exact .inr (.inr h)

/-- Setting pins leaves the points of all other names. -/
theorem point?_setAll (t : PinTable) (hname : name ∉ pins.map Prod.fst) :
    (t.setAll pins).point? name = t.point? name := by
  induction pins generalizing t with
  | nil => rfl
  | cons pin pins ih =>
    rw [List.map_cons, List.mem_cons, not_or] at hname
    rw [setAll_cons, ih _ hname.2, point?_set, if_neg hname.1]

/-! ## Each name once -/

/-- Setting a pin of the table changes none of the names, and setting another one adds its name. -/
theorem names_set (t : PinTable) (name : String) (p : Point) :
    (t.set name p).names = if name ∈ t.names then t.names else t.names ++ [name] := by
  obtain ⟨entries⟩ := t
  show (setEntry name p entries).map Prod.fst =
    if name ∈ entries.map Prod.fst then entries.map Prod.fst else entries.map Prod.fst ++ [name]
  induction entries with
  | nil => simp [setEntry]
  | cons entry rest ih =>
    by_cases h : name = entry.1
    · simp [setEntry, h]
    · rw [setEntry, beq_false_of_ne h, if_neg (by simp), List.map_cons, List.map_cons, ih]
      by_cases hmem : name ∈ rest.map Prod.fst
      · rw [if_pos hmem, if_pos (List.mem_cons_of_mem _ hmem)]
      · rw [if_neg hmem, if_neg (List.not_mem_cons_of_ne_of_not_mem h hmem), List.cons_append]

theorem nodup_set (h : t.names.Nodup) (name : String) (p : Point) : (t.set name p).names.Nodup := by
  rw [names_set]
  split
  next => exact h
  next hmem =>
    refine List.nodup_append.2 ⟨h, by simp, ?_⟩
    intro other hother last hlast heq
    rw [List.mem_singleton.1 hlast] at heq
    exact hmem (heq ▸ hother)

theorem nodup_setAll (h : t.names.Nodup) (pins : List (String × Point)) : (t.setAll pins).names.Nodup := by
  induction pins generalizing t with
  | nil => exact h
  | cons pin pins ih => exact ih (nodup_set h pin.1 pin.2)

/-- In a table with each name once the points are those that can be looked up. -/
theorem mem_points_iff (h : t.names.Nodup) (p : Point) : p ∈ t.points ↔ ∃ name, t.point? name = some p := by
  obtain ⟨entries⟩ := t
  show p ∈ entries.map Prod.snd ↔ ∃ name, entries.lookup name = some p
  replace h : (entries.map Prod.fst).Nodup := h
  induction entries with
  | nil => simp
  | cons entry rest ih =>
    obtain ⟨key, q⟩ := entry
    obtain ⟨hkey, hrest⟩ := List.nodup_cons.1 h
    rw [List.map_cons, List.mem_cons]
    refine (or_congr Iff.rfl (ih hrest)).trans ?_
    constructor
    · rintro (rfl | ⟨name, hname⟩)
      · exact ⟨key, by simp⟩
      · -- the name is further down, so it is another one
        have hne : name ≠ key := by
          rintro rfl
          exact hkey ((mem_names_iff ⟨rest⟩ name).2 (by simp [point?, hname]))
        exact ⟨name, by rw [List.lookup_cons, beq_false_of_ne hne]; exact hname⟩
    · rintro ⟨name, hname⟩
      rw [List.lookup_cons] at hname
      split at hname
      next => exact .inl (Option.some.inj hname).symm
      next => exact .inr ⟨name, hname⟩

end Pinboard.PinTable
