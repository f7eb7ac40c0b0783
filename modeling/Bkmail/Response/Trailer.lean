import Bkmail.Response.Framing
import Bkmail.Response.Lexer
import Bkmail.Response.Grammar
import Bkmail.Response.Readers

namespace Bkmail

open Cursor

namespace Lexer

theorem le_accumulated (digits : Bytes) (value : Nat) :
    value ≤ digits.foldl (fun value digit => 10 * value + (digit.toNat - 48)) value := by
  induction digits generalizing value with
  | nil => exact Nat.le_refl _
  | cons c digits ih => exact Nat.le_trans (by omega) (ih (10 * value + (c.toNat - 48)))

theorem literalCount_eq (digits : Bytes) {value : Nat} (fits : value < 2 ^ 64) :
    literalCount value digits =
      if digits.foldl (fun value digit => 10 * value + (digit.toNat - 48)) value < 2 ^ 64 then
        some (digits.foldl (fun value digit => 10 * value + (digit.toNat - 48)) value) else none := by
  induction digits generalizing value with
  | nil => rw [literalCount, List.foldl_nil, if_pos fits]
  | cons c digits ih =>
    have byteBound := c.toNat_lt
    have grows := le_accumulated digits (10 * value + (c.toNat - 48))
    rw [literalCount, List.foldl_cons]
    by_cases overflow : value > (2 ^ 64 - 1 - (c.toNat - 48)) / 10
    · rw [if_pos overflow, if_neg (by omega)]
    · rw [if_neg overflow, Nat.mul_comm value, ih (by omega)]

theorem literalCount_fromChars (digits : Bytes) : literalCount 0 digits = fromChars digits :=
  literalCount_eq digits (by decide)

theorem strip_plus (back : Bytes) : ∃ plus, (plus = [] ∨ plus = [byte '+']) ∧
    back = plus ++ if back.head? == some (byte '+') then back.tail else back := by
  by_cases plus : back.head? = some (byte '+')
  · obtain ⟨rest, rfl⟩ : ∃ rest, back = byte '+' :: rest := by
      obtain ⟨c, rest, rfl⟩ := List.exists_cons_of_ne_nil (l := back) (by rintro rfl; cases plus)
      exact ⟨rest, by rw [Option.some.inj plus]⟩
    exact ⟨[byte '+'], Or.inr rfl, rfl⟩
  · refine ⟨[], Or.inl rfl, ?_⟩
    rw [if_neg (by simpa using plus)]
    rfl

theorem fromChars_iff {digits : Bytes} {n : Nat} : fromChars digits = some n ↔
    decimalValue digits = n ∧ n < 2 ^ 64 := by
  rw [fromChars]
  constructor
  · intro read
    split at read
    · next fits => exact ⟨Option.some.inj read, Option.some.inj read ▸ fits⟩
    · cases read
  · rintro ⟨rfl, fits⟩
    exact if_pos fits

/-- The trailer that is read from the back of the line is the one that the grammar has. -/
theorem literalTrailer_iff {line : Bytes} {n : Nat} : literalTrailer line = some n ↔
    Announces line n := by
  simp only [Announces, ← fromChars_iff]
  constructor
  · intro found
    unfold literalTrailer at found
    split at found
    · cases found
    · next brace back reversed =>
      split at found
      · cases found
      · next shape =>
        simp only [Bool.or_eq_true, decide_eq_true_eq, bne_iff_ne, not_or, ne_eq, not_not] at shape
        obtain ⟨plus, sign, whole⟩ := strip_plus back
        dsimp only at found
        generalize (if back.head? == some (byte '+') then back.tail else back) = rest at found whole
        split at found
        · cases found
        · next marker before marked =>
          split at found
          · cases found
          · next mark =>
            split at found
            · cases found
            · next context =>
              simp only [Bool.or_eq_true, List.isEmpty_reverse, List.isEmpty_iff, bne_iff_ne,
                not_or, ne_eq, not_not] at mark
              refine ⟨before.reverse, (rest.takeWhile isDigit).reverse, plus,
                ?_, by simpa using mark.1, ?_, sign, ?_, by rwa [← literalCount_fromChars]⟩
              · have joined : rest = rest.takeWhile isDigit ++ byte '\x7b' :: before := by
                  rw [← mark.2, ← marked, List.takeWhile_append_dropWhile]
                rw [← List.reverse_reverse line, reversed, shape.2, whole]
                conv => lhs; rw [joined]
                rcases sign with rfl | rfl <;> simp
              · intro c member
                exact List.mem_takeWhile_imp (List.mem_reverse.mp member)
              · intro c last
                rw [List.getLast?_reverse] at last
                rw [last] at context
                simpa [Classical.or_iff_not_imp_left] using context
  · rintro ⟨before, digits, plus, rfl, nonempty, allDigits, sign, context, count⟩
    have reversed : (before ++ byte '\x7b' :: (digits ++ plus ++ [byte '\x7d'])).reverse =
        byte '\x7d' :: (plus ++ (digits.reverse ++ byte '\x7b' :: before.reverse)) := by
      rcases sign with rfl | rfl <;> simp
    have long : ¬ (before ++ byte '\x7b' :: (digits ++ plus ++ [byte '\x7d'])).length < 3 := by
      have := List.length_pos_iff.mpr nonempty
      simp only [List.length_append, List.length_cons]
      omega
    obtain ⟨last, front, backwards⟩ := List.exists_cons_of_ne_nil (List.reverse_ne_nil_iff.mpr nonempty)
    have lastDigit : isDigit last = true :=
      allDigits last (List.mem_reverse.mp (backwards ▸ List.mem_cons_self))
    have reversedDigits : ∀ c ∈ digits.reverse, isDigit c = true := fun c member =>
      allDigits c (List.mem_reverse.mp member)
    have stripped :
      (if (plus ++ (digits.reverse ++ byte '\x7b' :: before.reverse)).head? == some (byte '+') then
        (plus ++ (digits.reverse ++ byte '\x7b' :: before.reverse)).tail
        else plus ++ (digits.reverse ++ byte '\x7b' :: before.reverse)) =
        digits.reverse ++ byte '\x7b' :: before.reverse := by
      rcases sign with rfl | rfl
      · rw [List.nil_append, if_neg]
        rintro isPlus
        rw [backwards] at isPlus
        obtain rfl := Option.some.inj (beq_iff_eq.mp isPlus)
        exact absurd lastDigit (by decide)
      · simp
    have alone : before.getLast?.any (fun c => c != byte ' ' && c != byte '~') = false := by
      cases last : before.getLast? with
      | none => rfl
      | some c => simpa [Classical.or_iff_not_imp_left] using context c last
    have noDigit : isDigit (byte '\x7b') = false := rfl
    unfold literalTrailer
    rw [reversed]
    simp only [long, stripped, List.takeWhile_append_of_pos reversedDigits,
      List.dropWhile_append_of_pos reversedDigits, List.takeWhile_cons, List.dropWhile_cons, noDigit]
    simp [nonempty, alone, literalCount_fromChars, count]

theorem literalTrailer_eq (line : Bytes) : literalTrailer line = announced line :=
  Option.ext fun _ => literalTrailer_iff.trans announced_iff.symm

end Lexer

variable {line : Bytes} {n : Nat}

theorem announced_marker (alone : ∀ c, line.getLast? = some c → c = byte ' ' ∨ c = byte '~')
    (fits : n < 2 ^ 64) : announced (line ++ marker n) = some n :=
  announced_iff.mpr ⟨line, decimal n,
    [], by simp [marker], decimal_ne_nil n, decimal_digits n, Or.inl rfl, alone,
    decimalValue_decimal n, fits⟩

theorem trailer_tail {digits plus : Bytes} (allDigits : ∀ c ∈ digits, isDigit c = true)
    (sign : plus = [] ∨ plus = [byte '+']) {c : UInt8} (member : c ∈ digits ++ plus ++ [byte '\x7d']) :
    c ≠ byte '\x7b' ∧ c ≠ byte ' ' := by
  have digitCase (c : UInt8) (digit : isDigit c = true) : c ≠ byte '\x7b' ∧ c ≠ byte ' ' :=
    ⟨ne_of_holds digit rfl, ne_of_holds digit rfl⟩
  rcases List.mem_append.mp member with member | member
  · rcases List.mem_append.mp member with member | member
    · exact digitCase c (allDigits c member)
    · rcases sign with rfl | rfl
      · cases member
      · exact List.mem_singleton.mp member ▸ (by decide)
  · exact List.mem_singleton.mp member ▸ (by decide)

theorem append_cons_cancel {front front' back back' : Bytes} {c : UInt8} (fresh : c ∉ back)
    (fresh' : c ∉ back')
    (same : front ++ c :: back = front' ++ c :: back') : front = front' := by
  rcases List.append_eq_append_iff.mp same with ⟨gap, rfl, behind⟩ | ⟨gap, rfl, behind⟩
  · cases gap with
    | nil => simp
    | cons d gap => exact absurd ((List.cons.inj behind).2 ▸ by simp) fresh
  · cases gap with
    | nil => simp
    | cons d gap => exact absurd ((List.cons.inj behind).2 ▸ by simp) fresh'

theorem announced_glued {c : UInt8} (last : line.getLast? = some c)
    (other : c ≠ byte ' ' ∧ c ≠ byte '~') :
    announced (line ++ marker n) = none := by
  cases found : announced (line ++ marker n) with
  | none => rfl
  | some m =>
    obtain ⟨before, digits, plus, same, -, allDigits, sign, alone, -⟩ := announced_iff.mp found
    have fresh : byte '\x7b' ∉ decimal n ++ [byte '\x7d'] := fun member =>
      (trailer_tail (decimal_digits n) (Or.inl rfl) (by simpa using member)).1 rfl
    obtain rfl :=
      append_cons_cancel fresh (fun member => (trailer_tail allDigits sign member).1 rfl) same
    rcases alone c last with rfl | rfl
    · exact absurd rfl other.1
    · exact absurd rfl other.2

theorem announced_of_last {c : UInt8} (last : line.getLast? = some c) (other : c ≠ byte '\x7d') :
    announced line = none := by
  cases found : announced line with
  | none => rfl
  | some m =>
    obtain ⟨before, digits, plus, rfl, -⟩ := announced_iff.mp found
    have shape : before ++ byte '\x7b' :: (digits ++ plus ++ [byte '\x7d']) =
        (before ++ byte '\x7b' :: (digits ++ plus)) ++ [byte '\x7d'] := by simp
    rw [shape, List.getLast?_concat] at last
    exact absurd (Option.some.inj last).symm other

theorem announced_of_word {front word : Bytes} (closed : byte '\x7b' ∉ word) :
    announced (front ++ byte ' ' :: word) = none := by
  cases found : announced (front ++ byte ' ' :: word) with
  | none => rfl
  | some m =>
    obtain ⟨before, digits, plus, same, -, allDigits, sign, -⟩ := announced_iff.mp found
    rcases List.append_eq_append_iff.mp same with ⟨gap, rfl, behind⟩ | ⟨gap, rfl, behind⟩
    · cases gap with
      | nil => exact absurd (List.cons.inj behind).1 (by decide)
      | cons d gap => exact absurd ((List.cons.inj behind).2 ▸ by simp) closed
    · cases gap with
      | nil => exact absurd (List.cons.inj behind).1 (by decide)
      | cons d gap =>
        exact absurd rfl (trailer_tail allDigits sign ((List.cons.inj behind).2 ▸ by simp)).2

end Bkmail
