import Mathlib.Data.List.Forall2
import Pinboard.Text.Numeral

/-!
# The grammar of numerals

`Spells` is the grammar: an optional sign, one or more digits, and optionally a point with one or more digits after it.
Main statement: the numerals that are read are those of the grammar, and those of the grammar with one line feed behind
them (`read?_eq_some_iff`).
-/

namespace Pinboard.Text

/-- A digit of some script and its value: so far it is behind the zero of the script. -/
def IsDigit (c : Char) (d : Nat) : Prop := ∃ start ∈ zeroDigits, c.toNat = start + d ∧ d < 10

/-- One or more digits. -/
structure AreDigits (cs : List Char) (ds : List Nat) : Prop where
  ne_nil : cs ≠ []
  digits : List.Forall₂ IsDigit cs ds

/-- The sign of a numeral, which may be missing. -/
inductive IsSign : List Char → Bool → Prop
  | none : IsSign [] false
  | plus : IsSign ['+'] false
  | minus : IsSign ['-'] true

/-- The point of a numeral and the digits behind it, if there is one. -/
inductive IsFraction : List Char → Option (List Nat) → Prop
  | none : IsFraction [] none
  | point {cs : List Char} {ds : List Nat} (h : AreDigits cs ds) : IsFraction ('.' :: cs) (some ds)

/-- A text that is a numeral from end to end. -/
inductive Spells : List Char → Numeral → Prop
  | intro {sign whole fraction : List Char} {n : Numeral} (hsign : IsSign sign n.negative)
      (hwhole : AreDigits whole n.whole) (hfraction : IsFraction fraction n.fraction) :
      Spells (sign ++ (whole ++ fraction)) n

variable {cs whole fraction rest : List Char} {ds : List Nat} {n : Numeral} {negative : Bool}

/-! ## Digits -/

/-- Where the zeros are ten apart, the search for a digit finds it. -/
theorem digitValueFrom_eq_some_iff {starts : List Nat} (h : starts.Pairwise fun a b => a + 10 ≤ b) {k d : Nat} :
    digitValueFrom starts k = some d ↔ ∃ start ∈ starts, k = start + d ∧ d < 10 := by
  induction starts with
  | nil => simp [digitValueFrom]
  | cons start starts ih =>
    obtain ⟨hfirst, hrest⟩ := List.pairwise_cons.1 h
    simp only [digitValueFrom, List.mem_cons, exists_eq_or_imp]
    split
    next hlt =>
      refine iff_of_false (Option.some_ne_none d).symm ?_
      rintro (⟨heq, -⟩ | ⟨other, hother, heq, -⟩)
      · omega
      · have hapart := hfirst other hother
        omega
    next hge =>
      split
      next hlt =>
        rw [Option.some.injEq]
        constructor
        · intro heq
          exact .inl ⟨by omega, by omega⟩
        · rintro (⟨heq, -⟩ | ⟨other, hother, heq, -⟩)
          · omega
          · have hapart := hfirst other hother
            omega
      next hbeyond =>
        rw [ih hrest]
        refine ⟨.inr, ?_⟩
        rintro (⟨heq, hd⟩ | h)
        · omega
        · exact h

theorem digitValue?_eq_some_iff {c : Char} {d : Nat} : digitValue? c = some d ↔ IsDigit c d :=
  digitValueFrom_eq_some_iff (by decide +kernel)

theorem isDigit_ascii {c : Char} (h : c.isDigit = true) : IsDigit c (c.toNat - 48) := by
  obtain ⟨hlow, hhigh⟩ := Char.isDigit_iff_toNat.1 h
  have hhigh : c.toNat < 48 + 10 := Nat.lt_succ_of_le hhigh
  exact ⟨48, by decide, (Nat.add_sub_cancel' hlow).symm, by omega⟩

theorem forall₂_isDigit_ascii {digits : List Char} (h : ∀ c ∈ digits, c.isDigit = true) :
    List.Forall₂ IsDigit digits (digits.map fun c => c.toNat - 48) :=
  List.forall₂_map_right_iff.2 (List.forall₂_same.2 fun c hc => isDigit_ascii (h c hc))

/-- The digits at the front of a text are taken up to what follows them. -/
theorem takeDigits_forall₂ {digits rest : List Char} {ds : List Nat} (h : List.Forall₂ IsDigit digits ds)
    (hrest : takeDigits rest = ([], rest)) : takeDigits (digits ++ rest) = (ds, rest) := by
  induction h with
  | nil => exact hrest
  | cons hdigit _ ih =>
    rw [List.cons_append, takeDigits, digitValue?_eq_some_iff.2 hdigit]
    simp only [ih]

/-- The digits of the first script. -/
theorem areDigits_of_isDigit (hne : cs ≠ []) (h : ∀ c ∈ cs, c.isDigit = true) :
    AreDigits cs (cs.map fun c => c.toNat - 48) :=
  ⟨hne, forall₂_isDigit_ascii h⟩

/-- What is taken off the front of a text are digits. -/
theorem exists_takeDigits (cs : List Char) :
    ∃ front, cs = front ++ (takeDigits cs).2 ∧ List.Forall₂ IsDigit front (takeDigits cs).1 := by
  induction cs with
  | nil => exact ⟨[], rfl, .nil⟩
  | cons c cs ih =>
    rw [takeDigits]
    cases hc : digitValue? c with
    | none => exact ⟨[], rfl, .nil⟩
    | some d =>
      obtain ⟨front, heq, hfront⟩ := ih
      exact ⟨c :: front, congrArg (c :: ·) heq, .cons (digitValue?_eq_some_iff.1 hc) hfront⟩

theorem areDigits_of_takeDigits (h : takeDigits cs = (ds, rest)) (hne : ds ≠ []) :
    ∃ front, cs = front ++ rest ∧ AreDigits front ds := by
  obtain ⟨front, heq, hfront⟩ := exists_takeDigits cs
  rw [h] at heq hfront
  refine ⟨front, heq, ?_, hfront⟩
  rintro rfl
  cases hfront
  exact hne rfl

/-! ## Numerals without sign -/

theorem takeDigits_areDigits (h : AreDigits cs ds) : takeDigits cs = (ds, []) := by
  have htake : takeDigits (cs ++ []) = (ds, []) := takeDigits_forall₂ h.digits rfl
  rwa [List.append_nil] at htake

theorem AreDigits.exists_cons (h : AreDigits cs ds) : ∃ d ds', ds = d :: ds' := by
  cases h.digits with
  | nil => exact absurd rfl h.ne_nil
  | cons _ _ => exact ⟨_, _, rfl⟩

theorem readUnsigned_spelled {decimals : Option (List Nat)} (hwhole : AreDigits whole ds)
    (hfraction : IsFraction fraction decimals) :
    Numeral.readUnsigned negative (whole ++ fraction) = some ⟨negative, ds, decimals⟩ := by
  obtain ⟨d, ds, rfl⟩ := hwhole.exists_cons
  cases hfraction with
  | none =>
    rw [List.append_nil, Numeral.readUnsigned, takeDigits_areDigits hwhole]
  | point h =>
    obtain ⟨e, es, rfl⟩ := h.exists_cons
    rw [Numeral.readUnsigned, takeDigits_forall₂ hwhole.digits rfl]
    simp only [takeDigits_areDigits h]

theorem spelled_of_readUnsigned (h : Numeral.readUnsigned negative cs = some n) :
    n.negative = negative ∧
      ∃ whole fraction, cs = whole ++ fraction ∧ AreDigits whole n.whole ∧ IsFraction fraction n.fraction := by
  rw [Numeral.readUnsigned] at h
  split at h
  next => cases h
  next whole hne htake =>
    obtain ⟨front, rfl, hfront⟩ := areDigits_of_takeDigits htake hne
    cases h
    exact ⟨rfl, front, [], rfl, hfront, .none⟩
  next whole rest hne htake =>
    obtain ⟨front, rfl, hfront⟩ := areDigits_of_takeDigits htake hne
    split at h
    next => cases h
    next fraction hne htake =>
      obtain ⟨behind, rfl, hbehind⟩ := areDigits_of_takeDigits htake hne
      cases h
      rw [List.append_nil]
      exact ⟨rfl, front, '.' :: behind, rfl, hfront, .point hbehind⟩
    next => cases h
  next => cases h

/-! ## Signs -/

theorem exists_isSign (cs : List Char) :
    ∃ sign, cs = sign ++ (Numeral.takeSign cs).2 ∧ IsSign sign (Numeral.takeSign cs).1 := by
  unfold Numeral.takeSign
  split
  · exact ⟨['-'], rfl, .minus⟩
  · exact ⟨['+'], rfl, .plus⟩
  · exact ⟨[], rfl, .none⟩

/-- Digits do not begin with a sign. -/
theorem takeSign_areDigits (h : AreDigits whole ds) (rest : List Char) :
    Numeral.takeSign (whole ++ rest) = (false, whole ++ rest) := by
  have hsigns : digitValue? '-' = none ∧ digitValue? '+' = none := by decide
  cases h.digits with
  | nil => exact absurd rfl h.ne_nil
  | cons hdigit _ =>
    have hsome := digitValue?_eq_some_iff.2 hdigit
    rw [List.cons_append, Numeral.takeSign]
    · rintro cs heq
      cases heq
      cases hsigns.1.symm.trans hsome
    · rintro cs heq
      cases heq
      cases hsigns.2.symm.trans hsome

theorem takeSign_spelled {sign : List Char} (hsign : IsSign sign negative) (hwhole : AreDigits whole ds)
    (rest : List Char) : Numeral.takeSign (sign ++ (whole ++ rest)) = (negative, whole ++ rest) := by
  cases hsign with
  | none => exact takeSign_areDigits hwhole rest
  | plus => rfl
  | minus => rfl

/-- What is read with its sign is what the grammar spells. -/
theorem readUnsigned_takeSign_iff :
    Numeral.readUnsigned (Numeral.takeSign cs).1 (Numeral.takeSign cs).2 = some n ↔ Spells cs n := by
  constructor
  · intro h
    obtain ⟨sign, hcs, hsign⟩ := exists_isSign cs
    obtain ⟨hnegative, whole, fraction, hrest, hwhole, hfraction⟩ := spelled_of_readUnsigned h
    rw [hcs, hrest]
    rw [← hnegative] at hsign
    exact .intro hsign hwhole hfraction
  · rintro ⟨hsign, hwhole, hfraction⟩
    rw [takeSign_spelled hsign hwhole]
    exact readUnsigned_spelled hwhole hfraction

/-! ## Line feeds -/

/-- A text without a line feed is read as it is. -/
theorem dropLineFeed_eq_self {cs : List Char} (h : '\n' ∉ cs) : dropLineFeed cs = cs := by
  rw [dropLineFeed]
  split
  next rest hrest =>
    have hmem : '\n' ∈ cs.reverse := by
      rw [hrest]
      exact List.mem_cons_self
    exact absurd (List.mem_reverse.1 hmem) h
  next => rfl

theorem dropLineFeed_append (cs : List Char) : dropLineFeed (cs ++ ['\n']) = cs := by
  rw [dropLineFeed, List.reverse_append]
  exact List.reverse_reverse cs

theorem dropLineFeed_cases (cs : List Char) : cs = dropLineFeed cs ∨ cs = dropLineFeed cs ++ ['\n'] := by
  rw [dropLineFeed]
  split
  next rest hrest =>
    refine .inr ?_
    rw [← List.reverse_reverse cs, hrest, List.reverse_cons]
  next => exact .inl rfl

theorem lineFeed_not_mem_digits (h : List.Forall₂ IsDigit cs ds) : '\n' ∉ cs := by
  have hnone : digitValue? '\n' = none := by decide
  induction h with
  | nil => exact List.not_mem_nil
  | cons hdigit _ ih =>
    rw [List.mem_cons, not_or]
    refine ⟨?_, ih⟩
    rintro rfl
    cases hnone.symm.trans (digitValue?_eq_some_iff.2 hdigit)

/-- A numeral has no line feed in it. -/
theorem Spells.lineFeed_not_mem (h : Spells cs n) : '\n' ∉ cs := by
  obtain ⟨negative, ds, decimals⟩ := n
  obtain ⟨hsign, hwhole, hfraction⟩ := h
  rw [List.mem_append, List.mem_append]
  rintro (hmem | hmem | hmem)
  · cases hsign <;> simp at hmem
  · exact lineFeed_not_mem_digits hwhole.digits hmem
  · cases hfraction with
    | none => cases hmem
    | point hdigits =>
      rcases List.mem_cons.1 hmem with heq | hmem
      · exact absurd heq (by decide)
      · exact lineFeed_not_mem_digits hdigits.digits hmem

/-- What is read is a numeral of the grammar, or one with a line feed behind it. -/
theorem read?_eq_some_iff {token : String} :
    Numeral.read? token = some n ↔
      Spells token.toList n ∨ ∃ line : String, token = line ++ "\n" ∧ Spells line.toList n := by
  have hread : Numeral.read? token = some n ↔ Spells (dropLineFeed token.toList) n := readUnsigned_takeSign_iff
  rw [hread]
  constructor
  · intro h
    rcases dropLineFeed_cases token.toList with heq | heq
    · exact .inl (heq ▸ h)
    · refine .inr ⟨String.ofList (dropLineFeed token.toList), ?_, ?_⟩
      · apply String.toList_inj.1
        rw [String.toList_append, String.toList_ofList]
        exact heq
      · rwa [String.toList_ofList]
  · rintro (h | ⟨line, rfl, h⟩)
    · rwa [dropLineFeed_eq_self h.lineFeed_not_mem]
    · have hline : (line ++ "\n").toList = line.toList ++ ['\n'] := String.toList_append
      rwa [hline, dropLineFeed_append]

end Pinboard.Text
