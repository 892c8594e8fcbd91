import Pinboard.Text.Utf8

/-!
# Text as bytes and back

The bytes of a character are read as that character, whatever follows them (`decodeFrom_utf8EncodeChar`, a case for
each number of bytes). Main statement: the bytes of a text are read as that text (`decode_encode`).
-/

namespace Pinboard.Text

/-! ## Bytes of a text -/

theorem byteArray_toList_loop (bytes : ByteArray) (i : Nat) (r : List UInt8) :
    ByteArray.toList.loop bytes i r = r.reverse ++ bytes.data.toList.drop i := by
  fun_induction ByteArray.toList.loop bytes i r with
  | case1 i r hlt ih =>
    have hlt' : i < bytes.data.toList.length := by simpa using hlt
    have hget : bytes.get! i = bytes.data.toList[i] := by
      rw [ByteArray.get!, getElem!_pos bytes.data i (by simpa using hlt), Array.getElem_toList]
    rw [ih, hget, List.drop_eq_getElem_cons hlt']
    simp
  | case2 i r hge =>
    have hle : bytes.data.toList.length ≤ i := by simpa using hge
    rw [List.drop_eq_nil_of_le hle, List.append_nil]

theorem encode_eq (s : String) : encode s = s.toList.flatMap String.utf8EncodeChar := by
  rw [encode, String.toUTF8_eq_toByteArray, ← String.utf8Encode_toList, ByteArray.toList, byteArray_toList_loop,
    List.utf8Encode]
  simp

/-! ## Bytes of a character -/

theorem isContinuation_iff {b : UInt8} : isContinuation b = true ↔ 0x80 ≤ b.toNat ∧ b.toNat < 0xc0 := by
  simp [isContinuation, UInt8.le_iff_toNat_le, UInt8.lt_iff_toNat_lt]

theorem mayFollow_iff {first second : UInt8} :
    mayFollow first second = true ↔ (0x80 ≤ second.toNat ∧ second.toNat < 0xc0) ∧
      (first.toNat = 0xe0 → 0xa0 ≤ second.toNat) ∧ (first.toNat = 0xed → second.toNat < 0xa0) ∧
        (first.toNat = 0xf0 → 0x90 ≤ second.toNat) ∧ (first.toNat = 0xf4 → second.toNat < 0x90) := by
  simp only [mayFollow, Bool.and_eq_true, isContinuation_iff, Bool.not_eq_true', Bool.and_eq_false_imp,
    beq_iff_eq, decide_eq_false_iff_not, UInt8.lt_iff_toNat_lt, UInt8.le_iff_toNat_le, ← UInt8.toNat_inj,
    UInt8.reduceToNat, Nat.not_lt, Nat.not_le, and_assoc]

section
variable {b b₁ b₂ b₃ : UInt8} (position : Nat) (rest : List UInt8)

theorem decodeFrom_one (h : b.toNat < 0x80) :
    decodeFrom position (b :: rest) = (decodeFrom (position + 1) rest).map (Char.ofNat b.toNat :: ·) := by
  have hb : b < 0x80 := UInt8.lt_iff_toNat_lt.2 h
  rw [decodeFrom.eq_def]
  simp only [if_pos hb]
  cases decodeFrom (position + 1) rest <;> rfl

/-- A byte that begins a character of several bytes. -/
theorem leading (hb : 0xc2 ≤ b.toNat) (hb' : b.toNat < 0xf5) : ¬b < 0x80 ∧ ¬(b < 0xc2 ∨ 0xf5 ≤ b) := by
  simp only [UInt8.lt_iff_toNat_lt, UInt8.le_iff_toNat_le, UInt8.reduceToNat]
  omega

theorem decodeFrom_two (hb : 0xc2 ≤ b.toNat) (hb' : b.toNat < 0xe0) (h₁ : mayFollow b b₁ = true) :
    decodeFrom position (b :: b₁ :: rest) =
      (decodeFrom (position + 2) rest).map (Char.ofNat (b.toNat % 32 * 64 + lowBits b₁) :: ·) := by
  obtain ⟨hone, hstart⟩ := leading hb (by omega)
  have htwo : b < 0xe0 := UInt8.lt_iff_toNat_lt.2 hb'
  rw [decodeFrom.eq_def]
  simp only [if_neg hone, if_neg hstart, if_pos htwo, h₁, Bool.not_true, Bool.false_eq_true, if_false]
  cases decodeFrom (position + 2) rest <;> rfl

theorem decodeFrom_three (hb : 0xe0 ≤ b.toNat) (hb' : b.toNat < 0xf0) (h₁ : mayFollow b b₁ = true)
    (h₂ : isContinuation b₂ = true) :
    decodeFrom position (b :: b₁ :: b₂ :: rest) =
      (decodeFrom (position + 3) rest).map
        (Char.ofNat ((b.toNat % 16 * 64 + lowBits b₁) * 64 + lowBits b₂) :: ·) := by
  obtain ⟨hone, hstart⟩ := leading (by omega : 0xc2 ≤ b.toNat) (by omega)
  have htwo : ¬b < 0xe0 := fun h => Nat.not_lt.2 hb (UInt8.lt_iff_toNat_lt.1 h)
  have hthree : b < 0xf0 := UInt8.lt_iff_toNat_lt.2 hb'
  rw [decodeFrom.eq_def]
  simp only [if_neg hone, if_neg hstart, if_neg htwo, if_pos hthree, h₁, h₂, Bool.not_true, Bool.false_eq_true,
    if_false]
  cases decodeFrom (position + 3) rest <;> rfl

theorem decodeFrom_four (hb : 0xf0 ≤ b.toNat) (hb' : b.toNat < 0xf5) (h₁ : mayFollow b b₁ = true)
    (h₂ : isContinuation b₂ = true) (h₃ : isContinuation b₃ = true) :
    decodeFrom position (b :: b₁ :: b₂ :: b₃ :: rest) =
      (decodeFrom (position + 4) rest).map
        (Char.ofNat (((b.toNat % 8 * 64 + lowBits b₁) * 64 + lowBits b₂) * 64 + lowBits b₃) :: ·) := by
  obtain ⟨hone, hstart⟩ := leading (by omega : 0xc2 ≤ b.toNat) hb'
  have htwo : ¬b < 0xe0 := fun h => Nat.not_lt.2 (by omega : 0xe0 ≤ b.toNat) (UInt8.lt_iff_toNat_lt.1 h)
  have hthree : ¬b < 0xf0 := fun h => Nat.not_lt.2 hb (UInt8.lt_iff_toNat_lt.1 h)
  rw [decodeFrom.eq_def]
  simp only [if_neg hone, if_neg hstart, if_neg htwo, if_neg hthree, h₁, h₂, h₃, Bool.not_true, Bool.false_eq_true,
    if_false]
  cases decodeFrom (position + 4) rest <;> rfl

end

theorem lowBits_ofNat (n : Nat) : lowBits (UInt8.ofNat (n % 0x40 + 0x80)) = n % 0x40 := by
  rw [lowBits, UInt8.toNat_ofNat']
  omega

theorem isContinuation_ofNat (n : Nat) : isContinuation (UInt8.ofNat (n % 0x40 + 0x80)) = true := by
  rw [isContinuation_iff, UInt8.toNat_ofNat']
  omega

/-- The bytes of a character are read as that character. -/
theorem decodeFrom_utf8EncodeChar (c : Char) (position : Nat) (rest : List UInt8) :
    ∃ next, decodeFrom position (String.utf8EncodeChar c ++ rest) = (decodeFrom next rest).map (c :: ·) := by
  have hvalid : c.val.toNat < 0xd800 ∨ 0xdfff < c.val.toNat ∧ c.val.toNat < 0x110000 := c.valid
  have hchar {n : Nat} (h : n = c.val.toNat) : Char.ofNat n = c := by
    rw [h]
    exact Char.ofNat_toNat c
  have hbyte {n : Nat} (h : n < 256) : (UInt8.ofNat n).toNat = n := by
    rw [UInt8.toNat_ofNat']
    omega
  unfold String.utf8EncodeChar
  generalize c.val.toNat = v at *
  simp only
  by_cases hone : v ≤ 0x7f
  · rw [if_pos hone]
    have hb : (UInt8.ofNat v).toNat = v := hbyte (by omega)
    refine ⟨position + 1, (decodeFrom_one position rest (by omega)).trans ?_⟩
    rw [hb, hchar rfl]
  by_cases htwo : v ≤ 0x7ff
  · rw [if_neg hone, if_pos htwo]
    have hb : (UInt8.ofNat (v / 64 % 0x20 + 0xc0)).toNat = v / 64 % 0x20 + 0xc0 := hbyte (by omega)
    have hfollow : mayFollow (UInt8.ofNat (v / 64 % 0x20 + 0xc0)) (UInt8.ofNat (v % 0x40 + 0x80)) = true := by
      rw [mayFollow_iff, hb, hbyte (by omega)]
      omega
    refine ⟨position + 2, (decodeFrom_two position rest (by omega) (by omega) hfollow).trans ?_⟩
    rw [hb, lowBits_ofNat, hchar (by omega)]
  by_cases hthree : v ≤ 0xffff
  · rw [if_neg hone, if_neg htwo, if_pos hthree]
    have hb : (UInt8.ofNat (v / 4096 % 0x10 + 0xe0)).toNat = v / 4096 % 0x10 + 0xe0 := hbyte (by omega)
    have hfollow : mayFollow (UInt8.ofNat (v / 4096 % 0x10 + 0xe0)) (UInt8.ofNat (v / 64 % 0x40 + 0x80)) = true := by
      rw [mayFollow_iff, hb, hbyte (by omega)]
      omega
    refine ⟨position + 3,
      (decodeFrom_three position rest (by omega) (by omega) hfollow (isContinuation_ofNat v)).trans ?_⟩
    rw [hb, lowBits_ofNat, lowBits_ofNat, hchar (by omega)]
  · rw [if_neg hone, if_neg htwo, if_neg hthree]
    have hb : (UInt8.ofNat (v / 262144 % 0x08 + 0xf0)).toNat = v / 262144 % 0x08 + 0xf0 := hbyte (by omega)
    have hfollow : mayFollow (UInt8.ofNat (v / 262144 % 0x08 + 0xf0)) (UInt8.ofNat (v / 4096 % 0x40 + 0x80)) = true := by
      rw [mayFollow_iff, hb, hbyte (by omega)]
      omega
    refine ⟨position + 4, (decodeFrom_four position rest (by omega) (by omega) hfollow (isContinuation_ofNat _)
      (isContinuation_ofNat v)).trans ?_⟩
    rw [hb, lowBits_ofNat, lowBits_ofNat, lowBits_ofNat, hchar (by omega)]

/-- The bytes of a text are read as that text. -/
theorem decode_encode (s : String) : decode (encode s) = .ok s := by
  have hchars : ∀ (cs : List Char) (position : Nat), decodeFrom position (cs.flatMap String.utf8EncodeChar) = .ok cs := by
    intro cs
    induction cs with
    | nil =>
      intro position
      rw [List.flatMap_nil, decodeFrom.eq_def]
    | cons c cs ih =>
      intro position
      obtain ⟨next, hnext⟩ := decodeFrom_utf8EncodeChar c position (cs.flatMap String.utf8EncodeChar)
      rw [List.flatMap_cons, hnext, ih next]
      rfl
  rw [decode, encode_eq, hchars]
  exact congrArg Except.ok (String.ofList_toList)

end Pinboard.Text
