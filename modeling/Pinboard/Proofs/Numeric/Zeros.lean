import Mathlib.Data.List.Basic
import Pinboard.Proofs.Numeric.Order

/-!
# Numbers up to the sign of zero

Of a zero with a sign and a zero without one neither is below the other, so it depends on the order of some numbers
which of them is found to be the smallest. `Same` leaves the sign of zeros out of account. Sums, differences and
halves of the same numbers are the same (`Same.add`, `Same.sub`, `Same.half`), and so are the smallest and the largest
of the same numbers in another order (`same_foldl`).
-/

namespace Pinboard.Binary64

variable {x x' y y' : Binary64}

/-- One number, or two zeros. -/
inductive Same : Binary64 → Binary64 → Prop
  | refl (x : Binary64) : Same x x
  | zeros (s t : Bool) : Same (zero s) (zero t)

theorem exists_eq_zero (hx : x.isFinite = true) (h : x.exact = 0) : ∃ s, x = zero s := by
  obtain ⟨s, ⟨units, representable⟩, rfl⟩ := isFinite_iff.1 hx
  have hunits : units = 0 := by
    rw [← natAbs_signed s units]
    exact Int.natAbs_eq_zero.2 h
  subst hunits
  exact ⟨s, rfl⟩

/-- Finite numbers that are worth the same are the same. -/
theorem same_of_exact (hx : x.isFinite = true) (hy : y.isFinite = true) (h : x.exact = y.exact) : Same x y := by
  by_cases hzero : x.exact = 0
  · obtain ⟨s, rfl⟩ := exists_eq_zero hx hzero
    obtain ⟨t, rfl⟩ := exists_eq_zero hy (h ▸ hzero)
    exact .zeros s t
  · obtain ⟨s, ⟨m, hm⟩, rfl⟩ := isFinite_iff.1 hx
    obtain ⟨t, ⟨n, hn⟩, rfl⟩ := isFinite_iff.1 hy
    simp only [exact, signed] at h hzero
    have hsign : s = t := by cases s <;> cases t <;> simp at h hzero ⊢ <;> omega
    have hunits : m = n := by cases s <;> cases t <;> simp at h hzero ⊢ <;> omega
    subst hsign hunits
    exact .refl _

namespace Same

theorem symm (h : Same x y) : Same y x := by
  cases h with
  | refl _ => exact .refl _
  | zeros s t => exact .zeros t s

theorem isFinite_eq (h : Same x y) : x.isFinite = y.isFinite := by
  cases h <;> rfl

theorem exact_eq (h : Same x y) : x.exact = y.exact := by
  cases h with
  | refl _ => rfl
  | zeros s t => cases s <;> cases t <;> rfl

/-- Only zeros can be the same and differ. -/
theorem eq_of_ne_zero (h : Same x y) (hne : x.exact ≠ 0) : x = y := by
  cases h with
  | refl _ => rfl
  | zeros s t => cases s <;> exact absurd rfl hne

/-- Finite numbers are the same if they are equal as numbers. -/
theorem equal (h : Same x y) (hx : x.isFinite = true) : x.equal y = true := by
  obtain ⟨s, a, rfl⟩ := isFinite_iff.1 hx
  obtain ⟨t, b, rfl⟩ := isFinite_iff.1 (h.isFinite_eq ▸ hx)
  exact beq_iff_eq.2 h.exact_eq

theorem neg (h : Same x y) : Same (-x) (-y) := by
  cases h with
  | refl _ => exact .refl _
  | zeros s t => exact .zeros (!s) (!t)

/-- A sum of finite numbers depends on what they are worth, but for the sign of zero. -/
theorem add_finite (h : Same x x') (h' : Same y y') (hx : x.isFinite = true) (hy : y.isFinite = true) :
    Same (x + y) (x' + y') := by
  have hx' := h.isFinite_eq ▸ hx
  have hy' := h'.isFinite_eq ▸ hy
  have hexact := h.exact_eq
  have hexact' := h'.exact_eq
  by_cases hzero : x.exact + y.exact = 0
  · have hfinite := (isFinite_add_iff hx hy).2 (by rw [hzero]; exact inRange_zero)
    have hfinite' := (isFinite_add_iff hx' hy').2 (by rw [← hexact, ← hexact', hzero]; exact inRange_zero)
    have hsum := (exact_add hx hy hfinite).1
    have hsum' := (exact_add hx' hy' hfinite').1
    exact same_of_exact hfinite hfinite' (by omega)
  · obtain ⟨s, hsum, hs⟩ := add_eq_rounded hx hy
    obtain ⟨s', hsum', hs'⟩ := add_eq_rounded hx' hy'
    rw [← hexact, ← hexact'] at hsum' hs'
    rw [hsum, hsum', hs hzero, hs' hzero]
    exact .refl _

theorem add (h : Same x x') (h' : Same y y') : Same (x + y) (x' + y') := by
  cases h with
  | refl x =>
    cases h' with
    | refl _ => exact .refl _
    | zeros s t =>
      cases x with
      | nan => exact .refl _
      | infinite _ => exact .refl _
      | finite _ _ => exact add_finite (.refl _) (.zeros s t) rfl rfl
  | zeros s t =>
    cases y with
    | nan => cases h'; exact .refl _
    | infinite _ => cases h'; exact .refl _
    | finite _ _ => exact add_finite (.zeros s t) h' rfl rfl

theorem sub (h : Same x x') (h' : Same y y') : Same (x - y) (x' - y') := h.add h'.neg

theorem half (h : Same x y) : Same (x / 2) (y / 2) := by
  cases h with
  | refl _ => exact .refl _
  | zeros s t =>
    have hexact (r : Bool) : (zero r).exact = 0 := by cases r <;> rfl
    obtain ⟨hfinite, hle, -⟩ := exact_half (x := zero s) rfl
    obtain ⟨hfinite', hle', -⟩ := exact_half (x := zero t) rfl
    rw [hexact] at hle hle'
    exact same_of_exact hfinite hfinite' (by omega)

end Same

/-! ## The smallest and the largest of some numbers -/

/-- The smallest of some integers depends on which there are, and not on their order or number. -/
theorem foldl_min_congr {k l : Int} {ks ls : List Int} (h : ∀ n, n ∈ k :: ks ↔ n ∈ l :: ls) :
    ks.foldl min k = ls.foldl min l := by
  have hleast : (k :: ks).min? = some (ls.foldl min l) := by
    refine List.min?_eq_some_iff.2 ?_
    simp only [h]
    exact List.min?_eq_some_iff.1 (List.min?_cons' ..)
  exact Option.some.inj ((List.min?_cons' ..).symm.trans hleast)

theorem foldl_max_congr {k l : Int} {ks ls : List Int} (h : ∀ n, n ∈ k :: ks ↔ n ∈ l :: ls) :
    ks.foldl max k = ls.foldl max l := by
  have hgreatest : (k :: ks).max? = some (ls.foldl max l) := by
    refine List.max?_eq_some_iff.2 ?_
    simp only [h]
    exact List.max?_eq_some_iff.1 (List.max?_cons' ..)
  exact Option.some.inj ((List.max?_cons' ..).symm.trans hgreatest)

section
variable {α : Type} (f : α → Binary64) {a b : α} {as bs : List α} {op : Binary64 → Binary64 → Binary64}
  {opExact : Int → Int → Int}
  (hop : ∀ {x y : Binary64}, x.isFinite = true → y.isFinite = true →
    (op x y).isFinite = true ∧ (op x y).exact = opExact x.exact y.exact)

include hop

/-- A walk over finite numbers is a walk over what they are worth. -/
theorem exact_foldl (has : ∀ a ∈ as, (f a).isFinite = true) (hx : x.isFinite = true) :
    (as.foldl (fun x a => op x (f a)) x).isFinite = true ∧
      (as.foldl (fun x a => op x (f a)) x).exact = (as.map fun a => (f a).exact).foldl opExact x.exact := by
  induction as generalizing x with
  | nil => exact ⟨hx, rfl⟩
  | cons a as ih =>
    obtain ⟨ha, hrest⟩ := List.forall_mem_cons.1 has
    obtain ⟨hfinite, hexact⟩ := hop hx ha
    rw [List.foldl_cons, List.map_cons, List.foldl_cons, ← hexact]
    exact ih hrest hfinite

/-- What is found among some numbers is the same in another order and with repetitions, if it is so for integers. -/
theorem same_foldl
    (hcongr : ∀ {k l : Int} {ks ls : List Int}, (∀ n, n ∈ k :: ks ↔ n ∈ l :: ls) →
      ks.foldl opExact k = ls.foldl opExact l)
    (hfinite : ∀ c ∈ a :: as, (f c).isFinite = true) (h : ∀ c, c ∈ a :: as ↔ c ∈ b :: bs) :
    Same (as.foldl (fun x c => op x (f c)) (f a)) (bs.foldl (fun x c => op x (f c)) (f b)) := by
  have hfinite' : ∀ c ∈ b :: bs, (f c).isFinite = true := fun c hc => hfinite c ((h c).2 hc)
  obtain ⟨ha, has⟩ := List.forall_mem_cons.1 hfinite
  obtain ⟨hb, hbs⟩ := List.forall_mem_cons.1 hfinite'
  obtain ⟨hleft, heq⟩ := exact_foldl f hop has ha
  obtain ⟨hright, heq'⟩ := exact_foldl f hop hbs hb
  refine same_of_exact hleft hright ?_
  rw [heq, heq']
  refine hcongr fun n => ?_
  rw [← List.map_cons (f := fun c => (f c).exact), ← List.map_cons (f := fun c => (f c).exact), List.mem_map,
    List.mem_map]
  simp only [h]

end
end Pinboard.Binary64
