import Bkmail.Wire.Bytes

namespace Bkmail

abbrev Tag := Bytes

/-- The text `allocate_tag` builds for a counter value: `a` and the decimal digits, padded
    with zeros to four. -/
def tagText (value : Nat) : Tag :=
  let digits := decimal value
  byte 'a' :: (List.replicate (4 - digits.length) (byte '0') ++ digits)

theorem digit_byte {c : Char} (digit : c.isDigit) :
    (byte c).toNat - 48 = c.toNat - '0'.toNat ∧ isDigit (byte c) = true := by
  have range : 48 ≤ c.toNat ∧ c.toNat ≤ 57 := by
    simp only [Char.isDigit, ge_iff_le, Bool.and_eq_true, decide_eq_true_eq,
      UInt32.le_iff_toNat_le] at digit
    exact digit
  have same : (byte c).toNat = c.toNat := by
    simp only [byte, UInt32.toNat_toUInt8, Char.toNat_val]
    omega
  refine ⟨by rw [same]; rfl, ?_⟩
  simp only [isDigit, Bool.and_eq_true, decide_eq_true_eq, UInt8.le_iff_toNat_le, same]
  exact range

theorem decimal_digits (n : Nat) : ∀ b ∈ decimal n, isDigit b = true := by
  intro b member
  obtain ⟨c, present, rfl⟩ := List.mem_map.mp member
  exact (digit_byte (Nat.isDigit_of_mem_toDigits (by decide) (by decide) present)).2

theorem decimalValue_map_byte (digits : List Char) (all : ∀ c ∈ digits, c.isDigit) :
    decimalValue (digits.map byte) = Nat.ofDigitChars 10 digits 0 := by
  simp only [decimalValue, Nat.ofDigitChars, List.foldl_map]
  apply List.foldl_ext
  intro value c member
  rw [(digit_byte (all c member)).1]

theorem decimalValue_decimal (n : Nat) : decimalValue (decimal n) = n := by
  rw [decimal, decimalValue_map_byte _ fun c => Nat.isDigit_of_mem_toDigits (by decide) (by decide)]
  exact Nat.ofDigitChars_ten_toDigits

theorem decimalValue_padded (k : Nat) (digits : Bytes) :
    decimalValue (List.replicate k (byte '0') ++ digits) = decimalValue digits := by
  have zeros : List.foldl (fun value (digit : UInt8) => 10 * value + (digit.toNat - 48)) 0
      (List.replicate k (byte '0')) = 0 := by
    induction k with
    | zero => rfl
    | succ k ih => simpa [List.replicate_succ, byte] using ih
  simp only [decimalValue, List.foldl_append, zeros]

theorem tagText_injective {m n : Nat} (same : tagText m = tagText n) : m = n := by
  have digits := congrArg (fun tag => decimalValue tag.tail) same
  simpa only [tagText, List.tail_cons, decimalValue_padded, decimalValue_decimal] using digits

theorem tagText_tail_digits (n : Nat) : ∀ b ∈ (tagText n).tail, isDigit b = true := by
  intro b member
  simp only [tagText, List.tail_cons, List.mem_append, List.mem_replicate] at member
  rcases member with ⟨_, rfl⟩ | member
  · decide
  · exact decimal_digits n b member

theorem forall_byte {property : UInt8 → Prop} (all : ∀ n : Fin 256, property (UInt8.ofNat n))
    (b : UInt8) :
    property b := by
  simpa using all ⟨b.toNat, b.toNat_lt⟩

theorem ne_of_holds {property : UInt8 → Bool} {b c : UInt8} (holds : property b = true)
    (fails : property c = false) :
    b ≠ c := by
  rintro rfl
  exact Bool.false_ne_true (fails.symm.trans holds)

theorem digit_atomChar : ∀ b : UInt8, isDigit b = true → isAtomChar b = true :=
  forall_byte (by decide +kernel)

theorem tagText_atomChars (n : Nat) : ∀ b ∈ tagText n, isAtomChar b = true := by
  intro b member
  rcases List.mem_cons.mp member with rfl | member
  · decide
  · exact digit_atomChar b (tagText_tail_digits n b member)

example : tagText 7 = ascii "a0007" ∧ tagText 12345 = ascii "a12345" := by decide

end Bkmail
