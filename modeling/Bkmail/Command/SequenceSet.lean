import Bkmail.Wire.Astring
import Mathlib.Data.List.TakeWhile

namespace Bkmail.SequenceSet

def digitLoop (value : Nat) : Bytes → Option Bytes
  | [] => some []
  | c :: rest =>
    if isDigit c then
      let value := (value * 10 + (c.toNat - 48)) % 2 ^ 64
      if 0xFFFFFFFF < value then none else digitLoop value rest
    else some (c :: rest)

def parseSeqNumber : Bytes → Option Bytes
  | [] => none
  | c :: rest =>
    if c == byte '*' then some rest
    else if c < byte '1' || byte '9' < c then none
    else digitLoop 0 (c :: rest)

def parseSeqRange (text : Bytes) : Option Bytes :=
  match parseSeqNumber text with
  | some (c :: rest) => if c == byte ':' then parseSeqNumber rest else some (c :: rest)
  | behind => behind

/-- The loop of `is_valid`. Nothing is returned if it is still running after `turns` turns. -/
def rangeLoop : Nat → Bytes → Option Bool
  | 0, _ => none
  | turns + 1, text =>
    match parseSeqRange text with
    | none => some false
    | some [] => some true
    | some (c :: rest) => if c != byte ',' || rest.isEmpty then some false else rangeLoop turns rest

def isValid (turns : Nat) (text : Bytes) : Option Bool :=
  if text.isEmpty then some false else rangeLoop turns text

def sums (value : Nat) : Bytes → List Nat
  | [] => []
  | c :: rest =>
    if isDigit c then
      let sum := value * 10 + (c.toNat - 48)
      sum :: if 0xFFFFFFFF < sum % 2 ^ 64 then [] else sums (sum % 2 ^ 64) rest
    else []

/-- `seq-number`: a number of 32 bits without leading zeros, not zero, or the star. -/
inductive SeqNumber : Bytes → Prop where
  | star : SeqNumber [byte '*']
  | number {digits : Bytes} (filled : digits ≠ []) (all : ∀ c ∈ digits, isDigit c = true)
    (noZero : digits.head? ≠ some (byte '0')) (low : 1 ≤ decimalValue digits)
    (high : decimalValue digits ≤ 2 ^ 32 - 1) :
    SeqNumber digits

inductive SeqRange : Bytes → Prop where
  | single {number : Bytes} (own : SeqNumber number) : SeqRange number
  | pair {first second : Bytes} (left : SeqNumber first) (right : SeqNumber second) :
    SeqRange (first ++ byte ':' :: second)

inductive SeqSet : Bytes → Prop where
  | last {range : Bytes} (own : SeqRange range) : SeqSet range
  | more {range rest : Bytes} (own : SeqRange range) (others : SeqSet rest) :
      SeqSet (range ++ byte ',' :: rest)

theorem digit_value (c : UInt8) (digit : isDigit c = true) : c.toNat - 48 ≤ 9 := by
  simp only [isDigit, Bool.and_eq_true, decide_eq_true_eq, UInt8.le_iff_toNat_le] at digit
  have nine : (byte '9').toNat = 57 := rfl
  omega

theorem decimal_fold_le (digits : Bytes) (value : Nat) :
    value ≤ digits.foldl (fun value digit => 10 * value + (digit.toNat - 48)) value := by
  induction digits generalizing value with
  | nil => exact Nat.le_refl value
  | cons c digits ih =>
    have step := ih (10 * value + (c.toNat - 48))
    rw [List.foldl_cons]
    omega

theorem sums_small {value : Nat} (small : value ≤ 0xFFFFFFFF) (text : Bytes) :
    ∀ sum ∈ sums value text, sum < 2 ^ 64 := by
  induction text generalizing value with
  | nil => simp [sums]
  | cons c rest ih =>
    rw [sums]
    split
    · next digit =>
      have bound := digit_value c digit
      intro sum member
      rcases List.mem_cons.mp member with rfl | member
      · omega
      · split at member
        · cases member
        · next below => exact ih (by omega) sum member
    · simp

theorem digitLoop_append {digits rest : Bytes} (all : ∀ c ∈ digits, isDigit c = true)
    (stops : Stops isDigit rest)
    {value : Nat} (small : value ≤ 0xFFFFFFFF) : digitLoop value (digits ++ rest) =
      if digits.foldl (fun value digit => 10 * value + (digit.toNat - 48)) value ≤
      0xFFFFFFFF then some rest else none := by
  induction digits generalizing value with
  | nil =>
    rw [List.foldl_nil, if_pos small]
    cases rest with
    | nil => rfl
    | cons c rest => rw [List.nil_append, digitLoop, if_neg (by simp [stops c rfl])]
  | cons c digits ih =>
    obtain ⟨own, others⟩ := List.forall_mem_cons.mp all
    have bound := digit_value c own
    have whole : (value * 10 + (c.toNat - 48)) % 2 ^ 64 = 10 * value + (c.toNat - 48) := by omega
    rw [List.cons_append, digitLoop, if_pos own, whole, List.foldl_cons]
    by_cases large : 0xFFFFFFFF < 10 * value + (c.toNat - 48)
    · have more := decimal_fold_le digits (10 * value + (c.toNat - 48))
      rw [if_pos large, if_neg (by omega)]
    · rw [if_neg large, ih others (by omega)]

theorem parseSeqNumber_append {word rest : Bytes} (number : SeqNumber word)
    (stops : Stops isDigit rest) :
    parseSeqNumber (word ++ rest) = some rest := by
  cases number with
  | star => rfl
  | number filled all noZero low high =>
    obtain ⟨c, digits, rfl⟩ := List.exists_cons_of_ne_nil filled
    have own := all c List.mem_cons_self
    have noStar : c ≠ byte '*' := ne_of_holds own rfl
    have range : ∀ c : UInt8, isDigit c = true → c ≠ byte '0' →
      (decide (c < byte '1') || decide (byte '9' < c)) = false :=
      forall_byte (by decide +kernel)
    have inside := range c own (by simpa using noZero)
    rw [List.cons_append, parseSeqNumber, if_neg (by simpa using noStar), inside,
      if_neg Bool.false_ne_true, ← List.cons_append, digitLoop_append all stops (by decide)]
    exact if_pos high

theorem number_of_parseSeqNumber {text rest : Bytes} (parsed : parseSeqNumber text = some rest) :
    ∃ word, SeqNumber word ∧ text = word ++ rest := by
  cases text with
  | nil => cases parsed
  | cons c text =>
    rw [parseSeqNumber] at parsed
    split at parsed
    · next star =>
      cases parsed
      exact ⟨[c], beq_iff_eq.mp star ▸ .star, rfl⟩
    · split at parsed
      · cases parsed
      · next inside =>
        have range : ∀ c : UInt8, (decide (c < byte '1') || decide (byte '9' < c)) = false →
            isDigit c = true ∧ c ≠ byte '0' ∧ 1 ≤ c.toNat - 48 := forall_byte (by decide +kernel)
        obtain ⟨digit, noZero, positive⟩ := range c (by simpa using inside)
        have all : ∀ d ∈ (c :: text).takeWhile isDigit, isDigit d = true :=
          fun d => List.mem_takeWhile_imp
        have shape : (c :: text).takeWhile isDigit = c :: text.takeWhile isDigit := by simp [digit]
        have stops : Stops isDigit ((c :: text).dropWhile isDigit) := by
          intro d head
          have left := List.head?_dropWhile_not isDigit (c :: text)
          simpa [head] using left
        rw [← List.takeWhile_append_dropWhile (p := isDigit) (l := c :: text),
          digitLoop_append all stops (by decide)] at parsed
        split at parsed
        · next high =>
          have low := decimal_fold_le (text.takeWhile isDigit) (10 * 0 + (c.toNat - 48))
          refine ⟨(c :: text).takeWhile isDigit,
            .number (by simp [shape]) all (by simpa [shape] using noZero) ?_ high, ?_⟩
          · rw [shape, decimalValue, List.foldl_cons]
            omega
          · cases parsed
            exact (List.takeWhile_append_dropWhile).symm
        · cases parsed

section Ranges

variable {text range rest : Bytes}

theorem parseSeqRange_append (own : SeqRange range) (noDigit : Stops isDigit rest)
    (noColon : Stops (· == byte ':') rest) :
    parseSeqRange (range ++ rest) = some rest := by
  cases own with
  | single number =>
    rw [parseSeqRange, parseSeqNumber_append number noDigit]
    cases rest with
    | nil => rfl
    | cons c rest => simp [noColon c rfl]
  | @pair first second left right =>
    have colon : Stops isDigit (byte ':' :: (second ++ rest)) := .cons (by decide) _
    rw [List.append_assoc, List.cons_append, parseSeqRange, parseSeqNumber_append left colon]
    exact parseSeqNumber_append right noDigit

theorem range_of_parseSeqRange (parsed : parseSeqRange text = some rest) :
    ∃ range, SeqRange range ∧ text = range ++ rest := by
  rw [parseSeqRange] at parsed
  cases first : parseSeqNumber text with
  | none => simp [first] at parsed
  | some behind =>
    obtain ⟨word, number, rfl⟩ := number_of_parseSeqNumber first
    rw [first] at parsed
    cases behind with
    | nil =>
      cases parsed
      exact ⟨word, .single number, rfl⟩
    | cons c behind =>
      simp only at parsed
      split at parsed
      · next colon =>
        obtain ⟨second, right, rfl⟩ := number_of_parseSeqNumber parsed
        exact ⟨word ++ byte ':' :: second, .pair number right, by simp [beq_iff_eq.mp colon]⟩
      · cases parsed
        exact ⟨word, .single number, rfl⟩

theorem parseSeqRange_of_set (set : SeqSet text) : parseSeqRange text = some [] ∨
    ∃ others, parseSeqRange text = some (byte ',' :: others) ∧ SeqSet others := by
  cases set with
  | last own =>
    left
    simpa using parseSeqRange_append own (.nil isDigit) (.nil _)
  | @more range rest own others =>
    exact .inr ⟨rest, parseSeqRange_append own (.cons (by decide) rest) (.cons (by decide) rest),
      others⟩

theorem SeqSet.filled (set : SeqSet text) : text ≠ [] := by
  rintro rfl
  rcases parseSeqRange_of_set set with parsed | ⟨others, parsed, -⟩ <;> cases parsed

end Ranges

/-- The loop ends within as many turns as there are characters, and accepts the sets. -/
theorem rangeLoop_iff {turns : Nat} {text : Bytes} (enough : text.length < turns) :
    ∃ result, rangeLoop turns text = some result ∧ (result = true ↔ SeqSet text) := by
  induction turns generalizing text with
  | zero => omega
  | succ turns ih =>
    have first := fun set : SeqSet text => parseSeqRange_of_set set
    cases parsed : parseSeqRange text with
    | none =>
      rw [parsed] at first
      refine ⟨false, by simp [rangeLoop, parsed], by simp, fun set => ?_⟩
      rcases first set with same | ⟨others, same, -⟩ <;> cases same
    | some behind =>
      obtain ⟨range, own, shape⟩ := range_of_parseSeqRange parsed
      rw [parsed] at first
      cases behind with
      | nil =>
        rw [List.append_nil] at shape
        exact ⟨true, by simp [rangeLoop, parsed], by simp [shape, SeqSet.last own]⟩
      | cons c rest =>
        by_cases go : c = byte ',' ∧ rest ≠ []
        · obtain ⟨rfl, filled⟩ := go
          have shorter : rest.length < turns := by
            rw [shape, List.length_append, List.length_cons] at enough
            omega
          obtain ⟨result, ran, accepts⟩ := ih shorter
          have same : SeqSet rest ↔ SeqSet text := by
            constructor
            · intro others
              exact shape ▸ .more own others
            · intro set
              rcases first set with same | ⟨others, same, set⟩
              · cases same
              · cases same
                exact set
          exact ⟨result, by simp [rangeLoop, parsed, filled, ran], accepts.trans same⟩
        · refine ⟨false, ?_, by simp, fun set => ?_⟩
          · simp only [rangeLoop, parsed]
            rw [if_pos]
            by_cases comma : c = byte ',' <;> simp_all
          · rcases first set with same | ⟨others, same, set⟩
            · cases same
            · cases same
              exact (go ⟨rfl, set.filled⟩).elim

/-- The check ends, accepts the sequence sets of RFC 3501 and nothing else, and no sum that it forms
    needs more than 64 bits. -/
theorem isValid_exact (text : Bytes) :
    (∃ result, isValid (text.length + 1) text = some result ∧ (result = true ↔ SeqSet text)) ∧
      ∀ digits, ∀ sum ∈ sums 0 digits, sum < 2 ^ 64 := by
  refine ⟨?_, sums_small (by decide)⟩
  by_cases empty : text = []
  · subst empty
    exact ⟨false, rfl, by simp, fun set => absurd rfl set.filled⟩
  · rw [isValid, if_neg (by simpa using empty)]
    exact rangeLoop_iff (Nat.lt_succ_self _)

end Bkmail.SequenceSet
