import Pinboard.Proofs.Chart.Outcome
import Pinboard.Proofs.Numeric.Rounded
import Pinboard.Proofs.Text.Lines
import Pinboard.Proofs.Text.Numerals
import Pinboard.Proofs.Text.Spacing

/-!
# Which words are numbers

`IsNumberByGrammar` and `IsColumnsByGrammar` say what the grammar of numerals makes of a word: a number in the range of
the format, a count of columns, or a complaint. Main statement: words are read so but for two kinds of them
(`numbers_read_exactly`). One line feed behind a numeral is overlooked, so that the word means what it would mean
without, and a count of columns of more than `digitLimit` digits breaks down whatever its value.
-/

namespace Pinboard

open Binary64 (IsRounding isRounding_iff_ofDecimal isFinite_ofDecimal_iff)

/-! ## Numerals as numbers -/

namespace Text

variable {cs : List Char} {n : Numeral} {word : String}

/-- A numeral without a point. -/
structure SpellsInteger (cs : List Char) (n : Numeral) : Prop where
  spells : Spells cs n
  fraction : n.fraction = none

/-- The number of a numeral is what its value is rounded to. -/
theorem isRounding_iff_value {x : Binary64} :
    IsRounding n.negative n.exactValue x ↔ x = n.value ∧ x.isFinite = true :=
  isRounding_iff_ofDecimal _ _

theorem isFinite_value_iff : n.value.isFinite = true ↔ |n.exactValue| < overflowBound :=
  isFinite_ofDecimal_iff _ _

theorem SpellsInteger.exactValue_eq (h : SpellsInteger cs n) :
    n.exactValue = (Binary64.signed n.negative (ofDigits n.whole) : ℚ) := by
  rw [Numeral.exactValue, h.fraction, Option.getD_none, List.append_nil, List.length_nil, pow_zero, div_one]

theorem SpellsInteger.exactValue_neg_iff (h : SpellsInteger cs n) :
    n.exactValue < 0 ↔ Binary64.signed n.negative (ofDigits n.whole) < 0 := by
  rw [h.exactValue_eq]
  exact_mod_cast Iff.rfl

/-- What is read without a point is an integer of the grammar, or one with a line feed behind it. -/
theorem read?_filter_eq_some_iff :
    (Numeral.read? word).filter Numeral.isInteger = some n ↔
      SpellsInteger word.toList n ∨ ∃ line : String, word = line ++ "\n" ∧ SpellsInteger line.toList n := by
  rw [Option.filter_eq_some_iff, read?_eq_some_iff, Numeral.isInteger, Option.isNone_iff_eq_none]
  constructor
  · rintro ⟨h | ⟨line, hline, h⟩, hinteger⟩
    · exact .inl ⟨h, hinteger⟩
    · exact .inr ⟨line, hline, h, hinteger⟩
  · rintro (⟨h, hinteger⟩ | ⟨line, hline, h, hinteger⟩)
    · exact ⟨.inl h, hinteger⟩
    · exact ⟨.inr ⟨line, hline, h⟩, hinteger⟩

theorem lineFeed_mem_append (line : String) : '\n' ∈ (line ++ "\n").toList := by
  rw [String.toList_append]
  exact List.mem_append_right _ List.mem_cons_self

/-- Digits alone are an integer. -/
theorem spellsInteger_of_isDigit (hne : cs ≠ []) (h : ∀ c ∈ cs, c.isDigit = true) :
    SpellsInteger cs ⟨false, cs.map fun c => c.toNat - 48, none⟩ := by
  have hspells : Spells ([] ++ (cs ++ [])) ⟨false, cs.map fun c => c.toNat - 48, none⟩ :=
    .intro .none (areDigits_of_isDigit hne h) .none
  rw [List.nil_append, List.append_nil] at hspells
  exact ⟨hspells, rfl⟩

end Text

namespace Meaning

open Text (Numeral Spells SpellsInteger)

/-! ## What the grammar makes of a word -/

/-- What a word is as a number by the grammar: a numeral is what its value is rounded to, and there is a complaint about
the argument where that is not finite or the word is no numeral. -/
structure IsNumberByGrammar (word : String) (m : Meaning Binary64) : Prop where
  number : ∀ x, m = .ok x ↔ ∃ n, Spells word.toList n ∧ IsRounding n.negative n.exactValue x
  refusal : (∀ x, m ≠ .ok x) → ∃ c, m = complain c ∧ c.kind = .argument

/-- What a word is as a count of columns by the grammar: an integer from zero on is the count, and there is a complaint
about the dimension for a negative one, and about the argument where the word is no integer. -/
structure IsColumnsByGrammar (word : String) (m : Meaning Nat) : Prop where
  count : ∀ k : Nat, m = .ok k ↔ ∃ n, SpellsInteger word.toList n ∧ n.exactValue = k
  negative : ∀ n, SpellsInteger word.toList n → n.exactValue < 0 → ∃ c, m = complain c ∧ c.kind = .dimension
  refusal : (∀ n, ¬SpellsInteger word.toList n) → ∃ c, m = complain c ∧ c.kind = .argument

variable {command what word line : String} {n : Numeral}

/-! ## Numbers -/

theorem number_of_read? (h : Numeral.read? word = some n) :
    number command what word =
      if n.value.isFinite = true then .ok n.value else complain (.numberOutOfRange command what word) := by
  rw [number, h]

/-- A word that is read as a numeral is its number, if that is finite. -/
theorem number_ok_iff {x : Binary64} :
    number command what word = .ok x ↔ ∃ n, Numeral.read? word = some n ∧ IsRounding n.negative n.exactValue x := by
  constructor
  · intro h
    cases hread : Numeral.read? word with
    | none =>
      rw [number, hread] at h
      cases h
    | some n =>
      rw [number_of_read? hread] at h
      split at h
      next hfinite =>
        have hx : n.value = x := Except.ok.inj h
        rw [hx] at hfinite
        exact ⟨n, rfl, Text.isRounding_iff_value.2 ⟨hx.symm, hfinite⟩⟩
      next => cases h
  · rintro ⟨n, hread, hrounding⟩
    obtain ⟨hx, hfinite⟩ := Text.isRounding_iff_value.1 hrounding
    rw [hx] at hfinite ⊢
    rw [number_of_read? hread, if_pos hfinite]

/-- A word that is no number is complained about as an argument. -/
theorem number_refusal (h : ∀ x, number command what word ≠ .ok x) :
    ∃ c, number command what word = complain c ∧ c.kind = .argument := by
  cases hread : Numeral.read? word with
  | none => exact ⟨.notNumeric command what word, by rw [number, hread], rfl⟩
  | some n =>
    rw [number_of_read? hread] at h ⊢
    split at h
    next => exact absurd rfl (h _)
    next hinfinite => exact ⟨.numberOutOfRange command what word, if_neg hinfinite, rfl⟩

/-- A line feed behind a numeral is overlooked. -/
theorem number_append_lineFeed (h : Spells line.toList n) (hrange : |n.exactValue| < overflowBound) :
    number command what (line ++ "\n") = number command what line := by
  have hfinite := Text.isFinite_value_iff.2 hrange
  rw [number_of_read? (Text.read?_eq_some_iff.2 (.inr ⟨line, rfl, h⟩)),
    number_of_read? (Text.read?_eq_some_iff.2 (.inl h)), if_pos hfinite, if_pos hfinite]

/-- Words are the numbers of the grammar, but for numerals with a line feed behind them. -/
theorem isNumberByGrammar_iff :
    IsNumberByGrammar word (number command what word) ↔
      ∀ line n, word = line ++ "\n" → Spells line.toList n → ¬|n.exactValue| < overflowBound := by
  constructor
  · rintro h line n rfl hspells hrange
    have hfinite := Text.isFinite_value_iff.2 hrange
    have hread := Text.read?_eq_some_iff.2 (.inr ⟨line, rfl, hspells⟩)
    obtain ⟨n', hn', -⟩ := (h.number n.value).1 (by rw [number_of_read? hread, if_pos hfinite])
    exact hn'.lineFeed_not_mem (Text.lineFeed_mem_append line)
  · intro h
    refine ⟨fun x => ?_, number_refusal⟩
    rw [number_ok_iff]
    constructor
    · rintro ⟨n, hread, hrounding⟩
      rcases Text.read?_eq_some_iff.1 hread with hspells | ⟨line, hline, hspells⟩
      · exact ⟨n, hspells, hrounding⟩
      · exact absurd hrounding.inRange (h line n hline hspells)
    · rintro ⟨n, hspells, hrounding⟩
      exact ⟨n, Text.read?_eq_some_iff.2 (.inl hspells), hrounding⟩

/-! ## Counts of columns -/

theorem columns_of_read? (h : (Numeral.read? word).filter Numeral.isInteger = some n) :
    columns command word =
      if digitLimit < n.whole.length then .error (.breakdown (.arithmetic (.tooManyDigits n.whole.length)))
      else if Binary64.signed n.negative (Text.ofDigits n.whole) < 0 then
        complain (.negativeColumns command (Binary64.signed n.negative (Text.ofDigits n.whole)))
      else .ok (Binary64.signed n.negative (Text.ofDigits n.whole)).toNat := by
  rw [columns, h]
  simp only [Numeral.integer]
  by_cases hlimit : digitLimit < n.whole.length
  · simp only [if_pos hlimit]
  · simp only [if_neg hlimit]

theorem columns_of_not_read (h : (Numeral.read? word).filter Numeral.isInteger = none) :
    columns command word = complain (.columnsNotInteger command word) := by
  rw [columns, h]

/-- An integer of too many digits breaks down. -/
theorem columns_tooManyDigits (h : SpellsInteger word.toList n) (hlimit : digitLimit < n.whole.length) :
    columns command word = .error (.breakdown (.arithmetic (.tooManyDigits n.whole.length))) := by
  rw [columns_of_read? (Text.read?_filter_eq_some_iff.2 (.inl h)), if_pos hlimit]

/-- A line feed behind an integer is overlooked. -/
theorem columns_append_lineFeed (h : SpellsInteger line.toList n) :
    columns command (line ++ "\n") = columns command line := by
  rw [columns_of_read? (Text.read?_filter_eq_some_iff.2 (.inr ⟨line, rfl, h⟩)),
    columns_of_read? (Text.read?_filter_eq_some_iff.2 (.inl h))]

/-- The value of an integer that is not negative is its count. -/
theorem exactValue_eq_toNat {cs : List Char} (h : SpellsInteger cs n)
    (hsign : ¬Binary64.signed n.negative (Text.ofDigits n.whole) < 0) (k : Nat) :
    n.exactValue = k ↔ (Binary64.signed n.negative (Text.ofDigits n.whole)).toNat = k := by
  rw [h.exactValue_eq]
  generalize Binary64.signed n.negative (Text.ofDigits n.whole) = i at hsign
  have hcast : (i : ℚ) = k ↔ i = k := by exact_mod_cast Iff.rfl
  rw [hcast]
  omega

/-- A word without a line feed behind it, and of not too many digits, is read as the integer that it is. -/
theorem columns_spelled (h : SpellsInteger word.toList n) (hlimit : n.whole.length ≤ digitLimit) :
    (n.exactValue < 0 → ∃ c, columns command word = complain c ∧ c.kind = .dimension) ∧
      ∀ k : Nat, columns command word = .ok k ↔ n.exactValue = k := by
  rw [columns_of_read? (Text.read?_filter_eq_some_iff.2 (.inl h)), if_neg (Nat.not_lt.2 hlimit), h.exactValue_neg_iff]
  split
  next hneg =>
    refine ⟨fun _ => ⟨_, rfl, rfl⟩, fun k => iff_of_false nofun fun hk => ?_⟩
    rw [← h.exactValue_neg_iff, hk] at hneg
    exact absurd hneg (not_lt.2 (Nat.cast_nonneg k))
  next hpos =>
    refine ⟨fun hneg => absurd hneg hpos, fun k => ?_⟩
    rw [exactValue_eq_toNat h hpos, Except.ok.injEq]

/-- An integer with a line feed behind it is not complained about as an argument. -/
theorem not_argument_of_lineFeed (h : SpellsInteger line.toList n) :
    ¬∃ c, columns command (line ++ "\n") = complain c ∧ c.kind = .argument := by
  rintro ⟨c, hc, hkind⟩
  rw [columns_of_read? (Text.read?_filter_eq_some_iff.2 (.inr ⟨line, rfl, h⟩))] at hc
  split at hc
  next => cases hc
  next =>
    split at hc
    next =>
      cases hc
      cases hkind
    next => cases hc

/-- Words are the counts of the grammar, but for integers with a line feed behind them or with too many digits. -/
theorem isColumnsByGrammar_iff :
    IsColumnsByGrammar word (columns command word) ↔
      (∀ line n, word = line ++ "\n" → ¬SpellsInteger line.toList n) ∧
        ∀ n, SpellsInteger word.toList n → n.whole.length ≤ digitLimit := by
  constructor
  · intro h
    constructor
    · rintro line n rfl hn
      exact not_argument_of_lineFeed hn
        (h.refusal fun n' hn' => hn'.spells.lineFeed_not_mem (Text.lineFeed_mem_append line))
    · intro n hn
      refine Nat.le_of_not_lt fun hlimit => ?_
      have hfault : columns command word = .error _ := columns_tooManyDigits hn hlimit
      by_cases hneg : n.exactValue < 0
      · obtain ⟨c, hc, -⟩ := h.negative n hn hneg
        cases hfault.symm.trans hc
      · have hsign := mt hn.exactValue_neg_iff.2 hneg
        have hcount := (h.count _).2 ⟨n, hn, (exactValue_eq_toNat hn hsign _).2 rfl⟩
        cases hfault.symm.trans hcount
  · rintro ⟨hline, hlimit⟩
    have hread (n : Numeral) :
        (Numeral.read? word).filter Numeral.isInteger = some n ↔ SpellsInteger word.toList n := by
      rw [Text.read?_filter_eq_some_iff, or_iff_left]
      rintro ⟨line, heq, hspells⟩
      exact hline line n heq hspells
    refine ⟨fun k => ?_, fun n hn => (columns_spelled hn (hlimit n hn)).1, fun hnone => ?_⟩
    · constructor
      · intro h
        cases hword : (Numeral.read? word).filter Numeral.isInteger with
        | none =>
          rw [columns_of_not_read hword] at h
          cases h
        | some n =>
          have hn := (hread n).1 hword
          exact ⟨n, hn, ((columns_spelled hn (hlimit n hn)).2 k).1 h⟩
      · rintro ⟨n, hn, hk⟩
        exact ((columns_spelled hn (hlimit n hn)).2 k).2 hk
    · have hword := Option.eq_none_iff_forall_ne_some.2 fun n h => hnone n ((hread n).1 h)
      exact ⟨.columnsNotInteger command word, columns_of_not_read hword, rfl⟩

/-! ## The words of programs -/

/-- No word of a program has the end of a line in it. -/
theorem lineFeed_not_mem_of_program {program : String} {place : Nat} (h : (place, line) ∈ commandLines program)
    (hword : word ∈ Text.tokens line) : '\n' ∉ word.toList := by
  obtain ⟨-, hline⟩ := mem_numberLines (List.mem_filter.1 h).1
  obtain ⟨raw, hraw, rfl⟩ := Option.map_eq_some_iff.1 hline
  have hfree : ∀ c ∈ (Text.strip raw).toList, Text.isLineEnd c = false := by
    intro c hc
    rw [Text.strip, String.toList_ofList] at hc
    exact Text.mem_lines (List.mem_of_getElem? hraw) c (Text.mem_of_mem_stripBlanks hc)
  obtain ⟨part, hpart, rfl⟩ := List.mem_map.1 hword
  rw [String.toList_ofList]
  intro hmem
  have hend := Text.free_of_mem_cutAtRunsFrom hfree hpart _ hmem
  exact absurd hend (by decide)

/-! ## Exactness -/

/-- Words are read by the grammar, but for two kinds. A numeral with one line feed behind it is read as if there were
none; there are no such words in the lines of a program. An integer of more digits than the limit is no count and no
complaint, whatever its value. -/
theorem numbers_read_exactly (command what word : String) :
    (IsNumberByGrammar word (number command what word) ↔
        ∀ line n, word = line ++ "\n" → Spells line.toList n → ¬|n.exactValue| < overflowBound) ∧
      (IsColumnsByGrammar word (columns command word) ↔
        (∀ line n, word = line ++ "\n" → ¬SpellsInteger line.toList n) ∧
          ∀ n, SpellsInteger word.toList n → n.whole.length ≤ digitLimit) ∧
      (∀ line n, word = line ++ "\n" → Spells line.toList n →
        (|n.exactValue| < overflowBound → number command what word = number command what line) ∧
          (n.fraction = none → columns command word = columns command line)) ∧
      (∀ n, SpellsInteger word.toList n → digitLimit < n.whole.length →
        columns command word = .error (.breakdown (.arithmetic (.tooManyDigits n.whole.length)))) ∧
      ∀ program place line, (place, line) ∈ commandLines program → word ∈ Text.tokens line →
        IsNumberByGrammar word (number command what word) := by
  refine ⟨isNumberByGrammar_iff, isColumnsByGrammar_iff, ?_, fun n => columns_tooManyDigits, ?_⟩
  · rintro line n rfl hn
    exact ⟨number_append_lineFeed hn, fun hinteger => columns_append_lineFeed ⟨hn, hinteger⟩⟩
  · intro program place line hline hword
    refine isNumberByGrammar_iff.2 fun front n heq => ?_
    exact absurd (heq ▸ Text.lineFeed_mem_append front) (lineFeed_not_mem_of_program hline hword)

/-- The numeral of twelve. -/
def twelve : Numeral := ⟨false, [1, 2], none⟩

theorem spellsInteger_twelve : SpellsInteger "12".toList twelve :=
  Text.spellsInteger_of_isDigit (by decide) (by simp)

theorem twelve_inRange : |twelve.exactValue| < overflowBound :=
  Text.isFinite_value_iff.1 (by decide +kernel)

/-- Twelve with a line feed behind it is twelve, as a number and as a count of columns. -/
theorem numbers_read_exactly_lineFeed :
    number "Pin" "x" "12\n" = number "Pin" "x" "12" ∧ columns "Table" "12\n" = columns "Table" "12" := by
  obtain ⟨-, -, hnumber, -, -⟩ := numbers_read_exactly "Pin" "x" "12\n"
  obtain ⟨-, -, hcolumns, -, -⟩ := numbers_read_exactly "Table" "x" "12\n"
  exact ⟨(hnumber "12" twelve rfl spellsInteger_twelve.spells).1 twelve_inRange,
    (hcolumns "12" twelve rfl spellsInteger_twelve.spells).2 rfl⟩

/-- One, with zeros in front of it. -/
def paddedOne (zeros : Nat) : String := String.ofList (List.replicate zeros '0' ++ ['1'])

theorem exists_spells_paddedOne (zeros : Nat) :
    ∃ n, SpellsInteger (paddedOne zeros).toList n ∧ n.exactValue = 1 ∧ n.whole.length = zeros + 1 := by
  have hdigits : ∀ c ∈ List.replicate zeros '0' ++ ['1'], c.isDigit = true := by
    intro c hc
    rcases List.mem_append.1 hc with h | h
    · rw [List.eq_of_mem_replicate h]
      rfl
    · rw [List.mem_singleton.1 h]
      rfl
  have hspells := Text.spellsInteger_of_isDigit (by simp) hdigits
  rw [paddedOne, String.toList_ofList]
  refine ⟨_, hspells, ?_, by simp⟩
  have hone : Nat.ofDigitChars 10 ['1'] 0 = 1 := rfl
  have hzeros : Nat.ofDigitChars 10 (List.replicate zeros '0') 0 = 0 := by
    rw [Nat.ofDigitChars_replicate_zero, Nat.mul_zero]
  rw [hspells.exactValue_eq, Text.ofDigits_map, Nat.ofDigitChars_append, hzeros, hone]
  rfl

/-- The grammar has twelve with a line feed behind it for no numeral, but it is read as twelve; and one with 4300 zeros
in front of it is one, but no count is read from it. -/
theorem numbers_beyond_grammar :
    number "Pin" "x" "12\n" = .ok 12 ∧ ¬IsNumberByGrammar "12\n" (number "Pin" "x" "12\n") ∧
      (∃ n, SpellsInteger (paddedOne 4300).toList n ∧ n.exactValue = 1) ∧
        columns "Table" (paddedOne 4300) = .error (.breakdown (.arithmetic (.tooManyDigits 4301))) ∧
          ¬IsColumnsByGrammar (paddedOne 4300) (columns "Table" (paddedOne 4300)) := by
  obtain ⟨n, hn, hvalue, hlength⟩ := exists_spells_paddedOne 4300
  refine ⟨by decide +kernel, fun h => ?_, ⟨n, hn, hvalue⟩, ?_, fun h => ?_⟩
  · exact isNumberByGrammar_iff.1 h "12" twelve rfl spellsInteger_twelve.spells twelve_inRange
  · rw [columns_tooManyDigits hn (by rw [hlength]; decide), hlength]
  · have hle := (isColumnsByGrammar_iff.1 h).2 n hn
    rw [hlength] at hle
    exact absurd hle (by decide)

end Meaning
end Pinboard
