import Pinboard.Proofs.Text.Quoted
import Pinboard.Text.Stray

/-!
# Texts with stray bytes

A text has an encoding if none of its characters stands for a stray byte (`fault?_eq_none_iff`). Printable characters
and those below the ones for private use never do, so reports on labels can always be printed. What is joined to a text
without such characters is at fault if the text is, and for the same reason (`fault?_append_right`).
-/

namespace Pinboard

/-- The search among ranges finds the last one that begins at or below a code point. -/
theorem CodeRanges.covers_of_le {ranges : CodeRanges} {n : Nat} (hfirst : ∀ r ∈ ranges, r.1 ≤ n)
    (hlast : ∃ r ∈ ranges, n ≤ r.2) : ranges.covers n = true := by
  induction ranges with
  | nil =>
    obtain ⟨r, hr, -⟩ := hlast
    cases hr
  | cons range ranges ih =>
    rw [covers, Bool.and_eq_true, Bool.or_eq_true]
    refine ⟨decide_eq_true (hfirst range List.mem_cons_self), ?_⟩
    obtain ⟨r, hr, hn⟩ := hlast
    rcases List.mem_cons.1 hr with rfl | hr
    · exact .inl (decide_eq_true hn)
    · exact .inr (ih (fun s hs => hfirst s (List.mem_cons_of_mem _ hs)) ⟨r, hr, hn⟩)

namespace Text

/-- Characters for private use are hidden. -/
theorem isPrintable_of_private {c : Char} (h : 0xf0000 ≤ c.toNat) : isPrintable c = false := by
  have hfirst : (hiddenRanges.all fun r => r.1 ≤ 0xf0000) = true := by decide +kernel
  have hlast : (0xe01f0, 0x10ffff) ∈ hiddenRanges := by decide +kernel
  have hc : c.toNat ≤ 0x10ffff := by
    rcases c.valid with hlow | hhigh
    · exact Nat.le_trans (Nat.le_of_lt hlow) (by decide)
    · exact Nat.le_of_lt_succ hhigh.2
  rw [isPrintable, Bool.not_eq_false']
  refine CodeRanges.covers_of_le (fun r hr => ?_) ⟨_, hlast, hc⟩
  exact Nat.le_trans (of_decide_eq_true (List.all_eq_true.1 hfirst r hr)) h

namespace StrayBytes

variable (strays : StrayBytes) {c : Char} {s t : String}

theorem byte?_of_lt (h : c.toNat < 0xf0000) : strays.byte? c = none := by
  have hfirst := strays.isPrivate
  exact if_neg fun hc => by omega

theorem byte?_of_isPrintable (h : isPrintable c = true) : strays.byte? c = none := by
  rcases Nat.lt_or_ge c.toNat 0xf0000 with hlt | hge
  · exact strays.byte?_of_lt hlt
  · cases h.symm.trans (isPrintable_of_private hge)

variable {strays}

theorem faultFrom_eq_none_iff {position : Nat} {cs : List Char} :
    strays.faultFrom position cs = none ↔ ∀ c ∈ cs, strays.byte? c = none := by
  induction cs generalizing position with
  | nil => simp [faultFrom]
  | cons c cs ih =>
    rw [faultFrom, List.forall_mem_cons]
    cases hc : strays.byte? c with
    | none => simp [ih]
    | some b => simp

theorem fault?_eq_none_iff : strays.fault? s = none ↔ ∀ c ∈ s.toList, strays.byte? c = none := faultFrom_eq_none_iff

/-- Without stray bytes every text has an encoding. -/
theorem fault?_absent (s : String) : absent.fault? s = none := by
  refine fault?_eq_none_iff.2 fun c _ => if_neg fun hc => ?_
  have hc : 0x110000 ≤ c.toNat := hc.1
  rcases c.valid with hlow | hhigh
  · exact absurd (Nat.lt_of_le_of_lt hc hlow) (by decide)
  · exact absurd (Nat.lt_of_le_of_lt hc hhigh.2) (by decide)

theorem fault?_of_isPrintableText (h : isPrintableText s = true) : strays.fault? s = none :=
  fault?_eq_none_iff.2 fun c hc => strays.byte?_of_isPrintable (List.all_eq_true.1 h c hc)

theorem fault?_append_eq_none_iff :
    strays.fault? (s ++ t) = none ↔ strays.fault? s = none ∧ strays.fault? t = none := by
  rw [fault?_eq_none_iff, fault?_eq_none_iff, fault?_eq_none_iff, String.toList_append, List.forall_mem_append]

/-- Texts that have an encoding have one when they are joined. -/
theorem fault?_intercalate {separator : String} {texts : List String} (hseparator : strays.fault? separator = none)
    (htexts : ∀ text ∈ texts, strays.fault? text = none) : strays.fault? (separator.intercalate texts) = none := by
  induction texts with
  | nil => exact fault?_eq_none_iff.2 (by simp)
  | cons text texts ih =>
    obtain ⟨htext, hmore⟩ := List.forall_mem_cons.1 htexts
    cases texts with
    | nil => rwa [String.intercalate_singleton]
    | cons next texts =>
      rw [String.intercalate_cons_cons, fault?_append_eq_none_iff, fault?_append_eq_none_iff]
      exact ⟨⟨htext, hseparator⟩, ih hmore⟩

theorem takeWhile_append_of_free {p : Char → Bool} {cs ds : List Char} (h : ∀ d ∈ ds, p d = false) :
    (cs ++ ds).takeWhile p = cs.takeWhile p := by
  induction cs with
  | nil =>
    cases ds with
    | nil => rfl
    | cons d ds => rw [List.nil_append, List.takeWhile_cons, h d List.mem_cons_self]; rfl
  | cons c cs ih => rw [List.cons_append, List.takeWhile_cons, List.takeWhile_cons, ih]

theorem faultFrom_append {position : Nat} {cs ds : List Char} (h : ∀ d ∈ ds, strays.byte? d = none) :
    strays.faultFrom position (cs ++ ds) = strays.faultFrom position cs := by
  induction cs generalizing position with
  | nil => exact faultFrom_eq_none_iff.2 h
  | cons c cs ih =>
    rw [List.cons_append, faultFrom, faultFrom]
    cases strays.byte? c with
    | none => exact ih
    | some b =>
      rw [takeWhile_append_of_free]
      intro d hd
      rw [h d hd]
      rfl

/-- What has no stray bytes does not matter behind a text. -/
theorem fault?_append_right (h : strays.fault? t = none) : strays.fault? (s ++ t) = strays.fault? s := by
  rw [fault?, String.toList_append]
  exact faultFrom_append (fault?_eq_none_iff.1 h)

theorem fault?_ofList_of_lt {cs : List Char} (h : (cs.all fun c => c.toNat < 0xf0000) = true) :
    strays.fault? (String.ofList cs) = none := by
  rw [fault?, String.toList_ofList]
  exact faultFrom_eq_none_iff.2 fun c hc => strays.byte?_of_lt (of_decide_eq_true (List.all_eq_true.1 h c hc))

theorem fault?_lineFeed : strays.fault? "\n" = none := fault?_ofList_of_lt (by decide)

end StrayBytes
end Text
end Pinboard
