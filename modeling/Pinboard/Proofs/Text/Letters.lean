import Pinboard.Proofs.Text.Lines
import Pinboard.Text.Lowercase

/-!
# Capital and small letters of the alphabet

`Char.toLower` turns the capital letters from A to Z into small ones and leaves all other characters alone.
Main statement: it makes no difference to the small form of a word, in which all scripts have small letters
(`lowercase_toLower`). What is looked up about a character along the way is the same for the capital and the
small letter; `apply_toLower` reduces that to 26 letters.
-/

namespace Pinboard.Text

/-- A character is no capital letter of the alphabet, or it is one of 26. -/
theorem toLower_cases (c : Char) :
    c.toLower = c ∨ ∃ n : Fin 26, c = Char.ofNat (65 + n) ∧ c.toLower = Char.ofNat (97 + n) := by
  by_cases h : 65 ≤ c.toNat ∧ c.toNat ≤ 90
  · have hletters : ∀ n : Fin 26, (Char.ofNat (65 + n)).toLower = Char.ofNat (97 + n) := by decide
    have hc : c = Char.ofNat (65 + (⟨c.toNat - 65, by omega⟩ : Fin 26)) := by
      rw [show 65 + (c.toNat - 65) = c.toNat by omega, Char.ofNat_toNat]
    exact .inr ⟨⟨c.toNat - 65, by omega⟩, hc, (congrArg Char.toLower hc).trans (hletters _)⟩
  · refine .inl ?_
    unfold Char.toLower
    rw [dif_neg]
    rintro ⟨hlow, hhigh⟩
    exact h ⟨UInt32.le_iff_toNat_le.1 hlow, UInt32.le_iff_toNat_le.1 hhigh⟩

/-- What is the same for every letter and its capital does not depend on the case. -/
theorem apply_toLower {β : Type} {f : Char → β} (h : ∀ n : Fin 26, f (Char.ofNat (97 + n)) = f (Char.ofNat (65 + n)))
    (c : Char) : f c.toLower = f c := by
  rcases toLower_cases c with hc | ⟨n, hc, hlower⟩
  · rw [hc]
  · rw [hlower, hc]
    exact h n

/-- A character that is no letter of the alphabet is the small form of itself alone. -/
theorem toLower_eq_iff {d : Char} (h : ∀ n : Fin 26, Char.ofNat (97 + n) ≠ d ∧ Char.ofNat (65 + n) ≠ d) (c : Char) :
    c.toLower = d ↔ c = d := by
  rcases toLower_cases c with hc | ⟨n, hc, hlower⟩
  · rw [hc]
  · rw [hlower, hc]
    exact iff_of_false (h n).1 (h n).2

@[simp]
theorem isBlank_toLower (c : Char) : isBlank c.toLower = isBlank c := apply_toLower (by decide) c

@[simp]
theorem isGap_toLower (c : Char) : isGap c.toLower = isGap c := apply_toLower (by decide) c

@[simp]
theorem isLineEnd_toLower (c : Char) : isLineEnd c.toLower = isLineEnd c := apply_toLower (by decide) c

/-! ## Small letters of all scripts -/

theorem startsCased_toLower (cs : List Char) : startsCased (cs.map Char.toLower) = startsCased cs := by
  have htransparent : ((fun c : Char => transparentRanges.covers c.toNat) ∘ Char.toLower) =
      fun c : Char => transparentRanges.covers c.toNat := by
    funext c
    exact apply_toLower (f := fun c => transparentRanges.covers c.toNat) (by decide +kernel) c
  unfold startsCased
  rw [List.dropWhile_map, htransparent]
  cases cs.dropWhile fun c => transparentRanges.covers c.toNat with
  | nil => rfl
  | cons c rest => exact apply_toLower (f := fun c => casedRanges.covers c.toNat) (by decide +kernel) c

theorem lowerChar_toLower (before : List Char) (c : Char) (after : List Char) :
    lowerChar (before.map Char.toLower) c.toLower (after.map Char.toLower) = lowerChar before c after := by
  have hsigma : c.toLower = 'Σ' ↔ c = 'Σ' := toLower_eq_iff (by decide) c
  have hdotted : c.toLower = 'İ' ↔ c = 'İ' := toLower_eq_iff (by decide) c
  have hcode : Char.ofNat (lowerCodeFrom lowerRuns c.toLower.toNat) = Char.ofNat (lowerCodeFrom lowerRuns c.toNat) :=
    apply_toLower (f := fun c => Char.ofNat (lowerCodeFrom lowerRuns c.toNat)) (by decide +kernel) c
  simp only [lowerChar, startsCased_toLower, hsigma, hdotted, hcode]

theorem lowerFrom_toLower (before cs : List Char) :
    lowerFrom (before.map Char.toLower) (cs.map Char.toLower) = lowerFrom before cs := by
  induction cs generalizing before with
  | nil => rfl
  | cons c cs ih =>
    have hrest := ih (c :: before)
    rw [List.map_cons] at hrest
    rw [List.map_cons, lowerFrom, lowerFrom, lowerChar_toLower, hrest]

/-- The case of letters of the alphabet makes no difference to the small form of a word. -/
theorem lowercase_toLower (cs : List Char) :
    lowercase (String.ofList (cs.map Char.toLower)) = lowercase (String.ofList cs) := by
  rw [lowercase, lowercase, String.toList_ofList, String.toList_ofList]
  exact congrArg String.ofList (lowerFrom_toLower [] cs)

end Pinboard.Text
