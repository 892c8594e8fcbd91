import Mathlib.Data.Nat.ModEq
import Pinboard.Text.Json
import Pinboard.Proofs.Text.Cuts

/-!
# Objects in JSON

A string is written in ASCII, with escapes for all that JSON does not allow as it stands and for all that is not
ASCII. Main statement: what is written for the members of an object is read back as these members
(`Json.readObject_objectText`), and it is on one line (`Json.isPlain_objectText`).
-/

namespace Pinboard.Text.Json

/-! ## Digits -/

theorem hexValue?_digitChar : ∀ {n : Nat}, n < 16 → hexValue? (Nat.digitChar n) = some n := by decide

theorem hexNumber?_hexDigits (places n : Nat) : hexNumber? (hexDigits places n) = some (n % 16 ^ places) := by
  induction places generalizing n with
  | zero => rw [pow_zero, Nat.mod_one]; rfl
  | succ places ih =>
    have hlast := hexValue?_digitChar (Nat.mod_lt n (by decide : 0 < 16))
    have hmod : 16 * (n / 16 % 16 ^ places) + n % 16 = n % 16 ^ (places + 1) := by
      rw [pow_succ', Nat.mod_mul, Nat.add_comm]
    unfold hexNumber? at ih ⊢
    rw [hexDigits, List.foldlM_append, ih]
    show (hexValue? (Nat.digitChar (n % 16))).map (16 * (n / 16 % 16 ^ places) + ·) >>= _ = _
    rw [hlast, ← hmod]
    rfl

/-! ## Strings -/

theorem readCodes_unit {n : Nat} (h : n < 16 ^ 4) (rest : List Char) :
    readCodes ('\\' :: 'u' :: (hexDigits 4 n ++ rest)) = addCode (some n) (readCodes rest) := by
  have hnumber : hexNumber? (hexDigits 4 n) = some n := by rw [hexNumber?_hexDigits, Nat.mod_eq_of_lt h]
  rw [← hnumber]
  rfl

theorem readCodes_letter {c : Char} (hc : c ≠ 'u') (rest : List Char) :
    readCodes ('\\' :: c :: rest) = addCode (escapes.lookup c) (readCodes rest) := by
  rw [readCodes]
  rintro _ _ _ _ _ hu
  exact absurd hu hc

theorem readCodes_plain {c : Char} (hmark : c ≠ '"') (hescape : c ≠ '\\') (hshown : 0x20 ≤ c.toNat) (rest : List Char) :
    readCodes (c :: rest) = addCode (some c.toNat) (readCodes rest) := by
  rw [readCodes]
  · rw [if_neg (Nat.not_lt.2 hshown)]
  · exact hmark
  · rintro _ _ _ _ _ hc
    exact absurd hc hescape
  · rintro _ _ hc
    exact absurd hc hescape

/-- The codes that are read for a character: its own, or those of the two halves of a pair. -/
def codesOf (c : Char) : List Nat :=
  if c.toNat < 0x10000 then [c.toNat]
  else [0xd800 + (c.toNat - 0x10000) / 0x400, 0xdc00 + (c.toNat - 0x10000) % 0x400]

theorem toNat_lt (c : Char) : c.toNat < 0x110000 := by
  rcases c.valid with h | h
  · exact h.trans (by decide)
  · exact h.2

theorem readCodes_unitEscape (c : Char) {rest behind : List Char} {codes : List Nat}
    (h : readCodes rest = some (codes, behind)) :
    readCodes (unitEscape c.toNat ++ rest) = some (codesOf c ++ codes, behind) := by
  have hbound := toNat_lt c
  unfold unitEscape codesOf
  split
  next hsmall =>
    rw [List.cons_append, List.cons_append, readCodes_unit (by omega), h]
    rfl
  next =>
    simp only [List.cons_append, List.append_assoc]
    rw [readCodes_unit (by omega), readCodes_unit (by omega), h]
    rfl

/-- What is written for a character is read back in front of anything. -/
theorem readCodes_jsonChar (c : Char) {rest behind : List Char} {codes : List Nat}
    (h : readCodes rest = some (codes, behind)) :
    readCodes (jsonChar c ++ rest) = some (codesOf c ++ codes, behind) := by
  have hletter {letter c : Char} (hu : letter ≠ 'u') (hlookup : escapes.lookup letter = some c.toNat)
      (hcodes : codesOf c = [c.toNat]) :
      readCodes ('\\' :: letter :: rest) = some (codesOf c ++ codes, behind) := by
    rw [readCodes_letter hu, hlookup, h, hcodes]
    rfl
  unfold jsonChar
  split_ifs with hmark hn hr ht hf hb hplain
  · rcases hmark with rfl | rfl <;> exact hletter (by decide) (by decide) (by decide)
  · exact hn ▸ hletter (by decide) (by decide) (by decide)
  · exact hr ▸ hletter (by decide) (by decide) (by decide)
  · exact ht ▸ hletter (by decide) (by decide) (by decide)
  · exact hf ▸ hletter (by decide) (by decide) (by decide)
  · exact hb ▸ hletter (by decide) (by decide) (by decide)
  · obtain ⟨hquote, hescape⟩ := not_or.1 hmark
    have hcodes : codesOf c = [c.toNat] := if_pos (by omega)
    rw [List.singleton_append, readCodes_plain hquote hescape hplain.1, h, hcodes]
    rfl
  · exact readCodes_unitEscape c h

theorem readCodes_flatMap (cs rest : List Char) :
    readCodes (cs.flatMap jsonChar ++ '"' :: rest) = some (cs.flatMap codesOf, rest) := by
  induction cs with
  | nil => rfl
  | cons c cs ih =>
    rw [List.flatMap_cons, List.append_assoc, List.flatMap_cons]
    exact readCodes_jsonChar c ih

theorem isValidChar_toNat (c : Char) : c.toNat.isValidChar := c.valid

theorem joinCodes_cons (c : Char) (codes : List Nat) :
    joinCodes (c.toNat :: codes) = (joinCodes codes).map (c :: ·) := by
  have hchar : Char.ofNat c.toNat = c := Char.ofNat_toNat c
  cases codes with
  | nil => simp only [joinCodes, if_pos (isValidChar_toNat c), hchar, Option.map_some]
  | cons next codes => simp only [joinCodes, if_pos (isValidChar_toNat c), hchar]

theorem joinCodes_codesOf (c : Char) (codes : List Nat) :
    joinCodes (codesOf c ++ codes) = (joinCodes codes).map (c :: ·) := by
  have hbound := toNat_lt c
  unfold codesOf
  split
  next => exact joinCodes_cons c codes
  next hlarge =>
    have hinvalid : ¬(0xd800 + (c.toNat - 0x10000) / 0x400).isValidChar := by
      unfold Nat.isValidChar
      omega
    have hcode : pairCode (0xd800 + (c.toNat - 0x10000) / 0x400) (0xdc00 + (c.toNat - 0x10000) % 0x400) = c.toNat := by
      unfold pairCode
      omega
    show joinCodes (_ :: _ :: codes) = _
    rw [joinCodes, if_neg hinvalid, if_pos (by omega), hcode, Char.ofNat_toNat]

theorem joinCodes_flatMap (cs : List Char) : joinCodes (cs.flatMap codesOf) = some cs := by
  induction cs with
  | nil => rfl
  | cons c cs ih => rw [List.flatMap_cons, joinCodes_codesOf, ih, Option.map_some]

/-- A string is read back behind its opening mark. -/
theorem readString_flatMap (s : String) (rest : List Char) :
    readString (s.toList.flatMap jsonChar ++ '"' :: rest) = some (s, rest) := by
  simp only [readString, readCodes_flatMap, joinCodes_flatMap, Option.bind_eq_bind, Option.bind_some,
    Option.pure_def, String.ofList_toList]

theorem toList_jsonText (s : String) (rest : List Char) :
    (jsonText s).toList ++ rest = '"' :: (s.toList.flatMap jsonChar ++ '"' :: rest) := by
  simp [jsonText]

/-! ## Values -/

/-- A value as it is written. -/
def valueText : JsonValue → String
  | .null => "null"
  | .boolean b => if b then "true" else "false"
  | .number n => Nat.repr n
  | .string s => jsonText s

theorem isDigit_of_mem_repr {n : Nat} {c : Char} (h : c ∈ (Nat.repr n).toList) : c.isDigit = true := by
  rw [Nat.toList_repr] at h
  exact Nat.isDigit_of_mem_toDigits (b := 10) (by decide) (by decide) h

theorem exists_digit_cons (n : Nat) : ∃ c cs, (Nat.repr n).toList = c :: cs ∧ c.isDigit = true := by
  have hne : (Nat.repr n).toList ≠ [] := by
    rw [Nat.toList_repr]
    exact Nat.toDigits_ne_nil
  obtain ⟨c, cs, hcs⟩ := List.exists_cons_of_ne_nil hne
  exact ⟨c, cs, hcs, isDigit_of_mem_repr (n := n) (by simp [hcs])⟩

/-- A number is read back in front of anything but a digit. -/
theorem readNumber_repr (n : Nat) {rest : List Char} (hrest : ∀ c, rest.head? = some c → c.isDigit = false) :
    readNumber ((Nat.repr n).toList ++ rest) = some (n, rest) := by
  have hdigits : ∀ c ∈ (Nat.repr n).toList, c.isDigit = true := fun c hc => isDigit_of_mem_repr hc
  obtain ⟨htake, hdrop⟩ := takeWhile_dropWhile_append hdigits hrest
  have hvalue : Nat.ofDigitChars 10 (Nat.repr n).toList 0 = n := by
    rw [Nat.toList_repr, Nat.ofDigitChars_toDigits (by decide) (by decide)]
  unfold readNumber
  rw [htake, hdrop]
  simp only [hvalue, if_true]

/-- A value is read back in front of anything but a digit. -/
theorem readValue_valueText (value : JsonValue) {rest : List Char}
    (hrest : ∀ c, rest.head? = some c → c.isDigit = false) :
    readValue ((valueText value).toList ++ rest) = some (value, rest) := by
  cases value with
  | null => rfl
  | boolean b => cases b <;> rfl
  | number n =>
    have hread : readValue ((Nat.repr n).toList ++ rest) =
        (readNumber ((Nat.repr n).toList ++ rest)).map fun read => (.number read.1, read.2) := by
      obtain ⟨c, cs, hcs, hc⟩ := exists_digit_cons n
      have hhead {d : Char} {ds : List Char} (h : c :: (cs ++ rest) = d :: ds) : d.isDigit = true := by
        obtain ⟨rfl, -⟩ := List.cons.inj h
        exact hc
      rw [hcs, List.cons_append, readValue]
      all_goals exact fun _ h => absurd (hhead h) (by decide)
    exact hread.trans (by rw [readNumber_repr n hrest]; rfl)
  | string s =>
    show readValue ((jsonText s).toList ++ rest) = _
    rw [toList_jsonText]
    show (readString _).map _ = _
    rw [readString_flatMap]
    rfl

/-! ## Objects -/

/-- A member as it is written. -/
def memberText (entry : String × JsonValue) : String := jsonText entry.1 ++ ": " ++ valueText entry.2

/-- An object as it is written. -/
def objectText (entries : List (String × JsonValue)) : String :=
  "\x7b" ++ ", ".intercalate (entries.map memberText) ++ "\x7d"

theorem skipBlanks_cons {c : Char} (h : isBlank c = false) (rest : List Char) :
    skipBlanks (c :: rest) = c :: rest :=
  List.dropWhile_cons_of_neg (by simp [h])

/-- A value does not begin with a blank. -/
theorem skipBlanks_valueText (value : JsonValue) (rest : List Char) :
    skipBlanks ((valueText value).toList ++ rest) = (valueText value).toList ++ rest := by
  cases value with
  | null => rfl
  | boolean b => cases b <;> rfl
  | number n =>
    obtain ⟨c, cs, hcs, hc⟩ := exists_digit_cons n
    have hblank : isBlank c = false := by
      rw [← Bool.not_eq_true]
      intro hblank
      unfold isBlank at hblank
      simp only [Bool.or_eq_true, beq_iff_eq] at hblank
      rcases hblank with ((rfl | rfl) | rfl) | rfl <;> cases hc
    rw [valueText, hcs]
    exact skipBlanks_cons hblank _
  | string s =>
    rw [valueText, toList_jsonText]
    exact skipBlanks_cons rfl _

/-- A member is read back, behind blanks and in front of what ends it. -/
theorem readMember_memberText (entry : String × JsonValue) {c : Char} (hc : c = ',' ∨ c = '\x7d')
    {blanks : List Char} (hblanks : ∀ b ∈ blanks, isBlank b = true) (rest : List Char) :
    readMember (blanks ++ ((memberText entry).toList ++ c :: rest)) = some (entry, c :: rest) := by
  obtain ⟨name, value⟩ := entry
  have hdigit : ∀ d, (c :: rest).head? = some d → d.isDigit = false := by
    rcases hc with rfl | rfl <;> (rintro _ ⟨⟩; rfl)
  have hblank : isBlank c = false := by rcases hc with rfl | rfl <;> rfl
  have hchars : (memberText (name, value)).toList ++ c :: rest =
      (jsonText name).toList ++ ':' :: ' ' :: ((valueText value).toList ++ c :: rest) := by
    simp [memberText]
  have hskip (more : List Char) : skipBlanks (blanks ++ '"' :: more) = '"' :: more := by
    rw [skipBlanks, List.dropWhile_append_of_pos hblanks]
    exact skipBlanks_cons rfl more
  have hspace (more : List Char) : skipBlanks (' ' :: more) = skipBlanks more := rfl
  have hvalue : readMemberValue name (':' :: ' ' :: ((valueText value).toList ++ c :: rest)) =
      some ((name, value), c :: rest) := by
    rw [readMemberValue, skipBlanks_cons rfl]
    simp only [hspace, skipBlanks_valueText, readValue_valueText value hdigit, Option.map_some, skipBlanks_cons hblank]
  rw [hchars, toList_jsonText, readMember, hskip]
  simp only [readString_flatMap, Option.bind_eq_bind, Option.bind_some, hvalue]

/-- The members of an object are read back, behind blanks. -/
theorem readMembers_intercalate {entries : List (String × JsonValue)} (hne : entries ≠ []) {most : Nat}
    (hmost : entries.length ≤ most) {blanks : List Char} (hblanks : ∀ b ∈ blanks, isBlank b = true)
    (rest : List Char) :
    readMembers most (blanks ++ ((", ".intercalate (entries.map memberText)).toList ++ '\x7d' :: rest)) =
      some (entries, rest) := by
  induction entries generalizing most blanks with
  | nil => exact absurd rfl hne
  | cons entry entries ih =>
    obtain ⟨most, rfl⟩ : ∃ n, most = n + 1 := ⟨most - 1, by simp at hmost; omega⟩
    cases entries with
    | nil =>
      rw [List.map_singleton, String.intercalate_singleton, readMembers,
        readMember_memberText entry (.inr rfl) hblanks]
      rfl
    | cons next entries =>
      have hblank : ∀ c ∈ [' '], isBlank c = true := by simp [isBlank]
      have hrest := ih (List.cons_ne_nil _ _) (Nat.le_of_succ_le_succ hmost) hblank
      have hchars : (", ".intercalate ((entry :: next :: entries).map memberText)).toList ++ '\x7d' :: rest =
          (memberText entry).toList ++
            ',' :: ([' '] ++ ((", ".intercalate ((next :: entries).map memberText)).toList ++ '\x7d' :: rest)) := by
        simp only [List.map_cons, String.intercalate_cons_cons, String.toList_append, List.append_assoc]
        rfl
      rw [hchars, readMembers, readMember_memberText entry (.inl rfl) hblanks]
      simp only [Option.bind_eq_bind, Option.bind_some, hrest]
      rfl

theorem length_le_intercalate (entries : List (String × JsonValue)) :
    entries.length ≤ (", ".intercalate (entries.map memberText)).toList.length := by
  have hmember (entry : String × JsonValue) : 1 ≤ (memberText entry).toList.length := by
    simp [memberText, jsonText]
  induction entries with
  | nil => exact Nat.zero_le _
  | cons entry entries ih =>
    have hentry := hmember entry
    cases entries with
    | nil => simpa using hentry
    | cons next entries =>
      simp only [List.map_cons, String.intercalate_cons_cons, String.toList_append, List.length_append,
        List.length_cons] at hentry ih ⊢
      omega

/-- What is written for an object is read back as the object. -/
theorem readObject_objectText (entries : List (String × JsonValue)) :
    readObject (objectText entries) = some entries := by
  have hchars : (objectText entries).toList =
      '\x7b' :: ((", ".intercalate (entries.map memberText)).toList ++ ['\x7d']) := by
    simp [objectText]
  have hbrace (rest : List Char) : skipBlanks ('\x7b' :: rest) = '\x7b' :: rest := skipBlanks_cons rfl rest
  unfold readObject
  rw [hchars, hbrace]
  cases entries with
  | nil => rfl
  | cons entry entries =>
    have hlength := length_le_intercalate (entry :: entries)
    obtain ⟨more, hmore⟩ : ∃ more, (", ".intercalate ((entry :: entries).map memberText)).toList = '"' :: more := by
      cases entries <;> simp [memberText, jsonText]
    rw [hmore] at hlength
    have hmost : (entry :: entries).length ≤ ('"' :: (more ++ ['\x7d'])).length := by
      simp only [List.length_cons, List.length_append] at hlength ⊢
      omega
    have hread := readMembers_intercalate (List.cons_ne_nil entry entries) hmost (List.forall_mem_nil _) []
    rw [hmore] at hread ⊢
    have hbody : readBody ('"' :: (more ++ ['\x7d'])) = some (entry :: entries, []) := hread
    show (readBody (skipBlanks ('"' :: (more ++ ['\x7d'])))).bind _ = _
    rw [skipBlanks_cons rfl, hbody]
    rfl

/-! ## Lines -/

/-- A character that is shown, or a space, within ASCII. -/
def IsPlain (c : Char) : Prop := 0x20 ≤ c.toNat ∧ c.toNat < 0x7f

instance : DecidablePred IsPlain := fun c => inferInstanceAs (Decidable (0x20 ≤ c.toNat ∧ c.toNat < 0x7f))

theorem isPlain_of_all {cs : List Char} (h : (cs.all fun c => decide (IsPlain c)) = true) : ∀ c ∈ cs, IsPlain c :=
  fun c hc => of_decide_eq_true (List.all_eq_true.1 h c hc)

theorem isPlain_hexDigits (places n : Nat) : ∀ c ∈ hexDigits places n, IsPlain c := by
  have hdigit : ∀ d < 16, IsPlain (Nat.digitChar d) := by decide
  induction places generalizing n with
  | zero => exact List.forall_mem_nil _
  | succ places ih =>
    intro c hc
    rw [hexDigits, List.mem_append, List.mem_singleton] at hc
    rcases hc with hc | rfl
    · exact ih _ c hc
    · exact hdigit _ (Nat.mod_lt _ (by decide))

theorem isPlain_jsonChar (c : Char) : ∀ d ∈ jsonChar c, IsPlain d := by
  have hunit (n : Nat) : ∀ d ∈ '\\' :: 'u' :: hexDigits 4 n, IsPlain d := by
    intro d hd
    rcases List.mem_cons.1 hd with rfl | hd
    · decide
    rcases List.mem_cons.1 hd with rfl | hd
    · decide
    exact isPlain_hexDigits 4 n d hd
  unfold jsonChar
  split_ifs with hmark hn hr ht hf hb hplain
  · rcases hmark with rfl | rfl <;> exact isPlain_of_all (by decide)
  · exact isPlain_of_all (by decide)
  · exact isPlain_of_all (by decide)
  · exact isPlain_of_all (by decide)
  · exact isPlain_of_all (by decide)
  · exact isPlain_of_all (by decide)
  · exact List.forall_mem_singleton.2 hplain
  · unfold unitEscape
    split
    · exact hunit _
    · exact List.forall_mem_append.2 ⟨hunit _, hunit _⟩

theorem isPlain_jsonText (s : String) : ∀ c ∈ (jsonText s).toList, IsPlain c := by
  intro c hc
  simp only [jsonText, String.toList_ofList, List.cons_append, List.mem_cons, List.mem_append, List.mem_flatMap,
    List.not_mem_nil, or_false] at hc
  rcases hc with rfl | ⟨d, -, hc⟩ | rfl
  · decide
  · exact isPlain_jsonChar d c hc
  · decide

theorem isPlain_valueText (value : JsonValue) : ∀ c ∈ (valueText value).toList, IsPlain c := by
  cases value with
  | null => exact isPlain_of_all (by decide)
  | boolean b => cases b <;> exact isPlain_of_all (by decide)
  | number n =>
    intro c hc
    have hdigit := isDigit_of_mem_repr hc
    rw [Char.isDigit, Bool.and_eq_true, decide_eq_true_iff, decide_eq_true_iff] at hdigit
    have hlow : 48 ≤ c.toNat := hdigit.1
    have hhigh : c.toNat ≤ 57 := hdigit.2
    exact ⟨by omega, by omega⟩
  | string s => exact isPlain_jsonText s

/-- An object is written on one line. -/
theorem isPlain_objectText (entries : List (String × JsonValue)) : ∀ c ∈ (objectText entries).toList, IsPlain c := by
  have hmember (entry : String × JsonValue) : ∀ c ∈ (memberText entry).toList, IsPlain c := by
    simp only [memberText, String.toList_append, List.forall_mem_append]
    exact ⟨⟨isPlain_jsonText _, isPlain_of_all (by decide)⟩, isPlain_valueText _⟩
  have hmembers : ∀ c ∈ (", ".intercalate (entries.map memberText)).toList, IsPlain c := by
    induction entries with
    | nil => exact List.forall_mem_nil _
    | cons entry entries ih =>
      cases entries with
      | nil => simpa using hmember entry
      | cons next entries =>
        simp only [List.map_cons, String.intercalate_cons_cons, String.toList_append, List.forall_mem_append] at ih ⊢
        exact ⟨⟨hmember entry, isPlain_of_all (by decide)⟩, ih⟩
  simp only [objectText, String.toList_append, List.forall_mem_append]
  exact ⟨⟨isPlain_of_all (by decide), hmembers⟩, isPlain_of_all (by decide)⟩

end Pinboard.Text.Json
