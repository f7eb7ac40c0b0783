import Bkmail.Response.Fetch

namespace Bkmail

open Bkmail.Fetch

/-- Text in which each opening bracket has its closing one. -/
inductive Paired : Bytes → Prop
  | nil : Paired []
  | other {c : UInt8} {rest : Bytes} (opens : c ≠ byte '[') (closes : c ≠ byte ']')
      (pairs : Paired rest) :
      Paired (c :: rest)
  | pair {inner rest : Bytes} (inside : Paired inner) (behind : Paired rest) :
      Paired (byte '[' :: (inner ++ byte ']' :: rest))

/-- A name with sections in brackets. Outside of them there is no space and no closing
    parenthesis. -/
inductive Sectioned : Bytes → Prop
  | nil : Sectioned []
  | other {c : UInt8} {rest : Bytes} (outside : c ∉ ascii "[ )") (behind : Sectioned rest) :
      Sectioned (c :: rest)
  | pair {inner rest : Bytes} (inside : Paired inner) (behind : Sectioned rest) :
      Sectioned (byte '[' :: (inner ++ byte ']' :: rest))

/-- The brackets of a key balance, and 32 bits can count them. -/
structure Balanced (key : Bytes) : Prop where
  sectioned : Sectioned key
  few : key.count (byte '[') < 2 ^ 32

/-- The brackets open behind a text with `depth` of them open in front of it, where the key loop
    does not stop inside. -/
def bracketDepth : Nat → Bytes → Option Nat
  | depth, [] => some depth
  | depth, c :: rest =>
    if (c == byte ' ' || c == byte ')') && bracketsAfter depth c == 0 then none
    else bracketDepth (bracketsAfter depth c) rest

theorem bracketDepth_append (depth : Nat) (front back : Bytes) :
    bracketDepth depth (front ++ back) = (bracketDepth depth front).bind (bracketDepth · back) := by
  induction front generalizing depth with
  | nil => rfl
  | cons c front ih =>
    rw [List.cons_append, bracketDepth, bracketDepth]
    split
    · rfl
    · exact ih _

section Steps

variable {depth : Nat} {c : UInt8} (rest : Bytes)

theorem bracketDepth_open (few : depth + 1 < 2 ^ 32) :
    bracketDepth depth (byte '[' :: rest) = bracketDepth (depth + 1) rest := by
  have other : byte '[' ≠ byte ']' ∧ byte '[' ≠ byte ' ' ∧ byte '[' ≠ byte ')' := by decide
  have counted : bracketsAfter depth (byte '[') = depth + 1 := by
    simp only [bracketsAfter, Nat.mod_eq_of_lt few]
    simp [other]
  rw [bracketDepth, counted]
  simp

theorem bracketDepth_close : bracketDepth (depth + 1) (byte ']' :: rest) = bracketDepth depth rest := by
  have other : byte ']' ≠ byte '[' ∧ byte ']' ≠ byte ' ' ∧ byte ']' ≠ byte ')' := by decide
  have counted : bracketsAfter (depth + 1) (byte ']') = depth := by simp [bracketsAfter, other]
  rw [bracketDepth, counted]
  simp [other]

theorem bracketsAfter_other (opens : c ≠ byte '[') (closes : c ≠ byte ']') :
    bracketsAfter depth c = depth := by
  simp [bracketsAfter, opens, closes]

theorem bracketDepth_inside (opens : c ≠ byte '[') (closes : c ≠ byte ']') :
    bracketDepth (depth + 1) (c :: rest) = bracketDepth (depth + 1) rest := by
  rw [bracketDepth, bracketsAfter_other opens closes, if_neg (by simp)]

theorem bracketDepth_outside (outside : c ∉ ascii "[ )") :
    bracketDepth 0 (c :: rest) = bracketDepth 0 rest := by
  obtain ⟨opens, space, closing⟩ :
    c ≠ byte '[' ∧ c ≠ byte ' ' ∧ c ≠ byte ')' := by simpa [ascii] using outside
  have counted : bracketsAfter 0 c = 0 := by simp [bracketsAfter, opens]
  rw [bracketDepth, counted, if_neg (by simp [space, closing])]

end Steps

theorem bracketDepth_plain {text : Bytes} (plain : ∀ c ∈ text, c ∉ ascii "[] )") (depth : Nat) :
    bracketDepth depth text = some depth := by
  induction text with
  | nil => rfl
  | cons c text ih =>
    obtain ⟨first, rest⟩ := List.forall_mem_cons.mp plain
    have letters :
      c ≠ byte '[' ∧ c ≠ byte ']' ∧ c ≠ byte ' ' ∧ c ≠ byte ')' := by simpa [ascii] using first
    simp [bracketDepth, bracketsAfter, letters, ih rest]

theorem count_closing (rest : Bytes) : (byte ']' :: rest).count (byte '[') = rest.count (byte '[') :=
  List.count_cons_of_ne (by decide)

theorem Paired.depth {text : Bytes} (paired : Paired text) {depth : Nat}
    (few : depth + text.count (byte '[') + 1 < 2 ^ 32) (rest : Bytes) :
    bracketDepth (depth + 1) (text ++ rest) = bracketDepth (depth + 1) rest := by
  induction paired generalizing depth rest with
  | nil => rfl
  | other opens closes pairs ih =>
    rw [List.count_cons_of_ne opens] at few
    rw [List.cons_append, bracketDepth_inside _ opens closes, ih few]
  | pair inside behind ihInside ihBehind =>
    simp only [List.count_cons_self, List.count_append, count_closing] at few
    rw [List.cons_append, List.append_assoc, List.cons_append, bracketDepth_open _ (by omega),
      ihInside (by omega), bracketDepth_close, ihBehind (by omega)]

/-- A depth that comes back to zero passes the bracket that closes the innermost one. -/
theorem bracketDepth_closes {depth : Nat} {text : Bytes}
    (few : depth + text.count (byte '[') + 1 < 2 ^ 32)
    (closed : bracketDepth (depth + 1) text = some 0) :
    ∃ inner rest, text = inner ++ byte ']' :: rest ∧ Paired inner ∧
    bracketDepth depth rest = some 0 := by
  induction length : text.length using Nat.strongRecOn generalizing depth text with
  | ind n ih =>
    subst length
    cases text with
    | nil => cases closed
    | cons c text =>
      by_cases opens : c = byte '['
      · subst opens
        rw [List.count_cons_self] at few
        rw [bracketDepth_open _ (by omega)] at closed
        obtain ⟨inner, middle, rfl, inside, between⟩ := ih _ (by simp) (by omega) closed rfl
        simp only [List.count_append, count_closing] at few
        obtain ⟨behind, rest, rfl, paired, outside⟩ := ih _ (by simp; omega) (by omega) between rfl
        exact ⟨byte '[' :: (inner ++ byte ']' :: behind), rest, by simp, .pair inside paired, outside⟩
      · rw [List.count_cons_of_ne opens] at few
        by_cases closes : c = byte ']'
        · subst closes
          exact ⟨[], text, rfl, .nil, bracketDepth_close text ▸ closed⟩
        · rw [bracketDepth_inside _ opens closes] at closed
          obtain ⟨inner, rest, rfl, inside, outside⟩ := ih _ (by simp) few closed rfl
          exact ⟨c :: inner, rest, rfl, .other opens closes inside, outside⟩

/-- The key loop gets through a key, and back to where no bracket is open, exactly if its brackets
    balance. -/
theorem sectioned_iff {key : Bytes} (few : key.count (byte '[') < 2 ^ 32) :
    Sectioned key ↔ bracketDepth 0 key = some 0 := by
  constructor
  · intro sectioned
    induction sectioned with
    | nil => rfl
    | other outside behind ih =>
      have opens : _ ≠ byte '[' := List.ne_of_not_mem_cons outside
      rw [List.count_cons_of_ne opens] at few
      rw [bracketDepth_outside _ outside, ih few]
    | pair inside behind ih =>
      simp only [List.count_cons_self, List.count_append, count_closing] at few
      rw [bracketDepth_open _ (by decide), inside.depth (by omega), bracketDepth_close, ih (by omega)]
  · intro closed
    induction length : key.length using Nat.strongRecOn generalizing key with
    | ind n ih =>
      subst length
      cases key with
      | nil => exact .nil
      | cons c key =>
        by_cases opens : c = byte '['
        · subst opens
          rw [List.count_cons_self] at few
          rw [bracketDepth_open _ (by decide)] at closed
          obtain ⟨inner, rest, rfl, inside, outside⟩ := bracketDepth_closes (by omega) closed
          simp only [List.count_append, count_closing] at few
          exact .pair inside (ih _ (by simp; omega) (by omega) outside rfl)
        · have outside : c ∉ ascii "[ )" := by
            rintro member
            obtain rfl | rfl : c = byte ' ' ∨ c = byte ')' := by simpa [ascii, opens] using member
            · cases closed
            · cases closed
          rw [List.count_cons_of_ne opens] at few
          rw [bracketDepth_outside _ outside] at closed
          exact .other outside (ih _ (by simp) few closed rfl)

theorem balanced_iff {key : Bytes} :
    Balanced key ↔ key.count (byte '[') < 2 ^ 32 ∧ bracketDepth 0 key = some 0 :=
  ⟨fun balanced => ⟨balanced.few, (sectioned_iff balanced.few).mp balanced.sectioned⟩,
    fun ⟨few, closed⟩ => ⟨(sectioned_iff few).mpr closed, few⟩⟩

instance (key : Bytes) : Decidable (Balanced key) := decidable_of_iff _ balanced_iff.symm

end Bkmail
