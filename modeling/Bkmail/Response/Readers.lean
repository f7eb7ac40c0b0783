import Bkmail.Response.Cursor
import Bkmail.Wire.Astring

namespace Bkmail

theorem asciiIequals_congr {a b : Bytes} (same : asciiIequals a b = true) (c : Bytes) :
    asciiIequals a c = asciiIequals b c := by
  rw [asciiIequals, asciiIequals, beq_iff_eq.mp same]

theorem atomChar_upper : ∀ c : UInt8, isAtomChar (asciiToUpper c) = isAtomChar c :=
  forall_byte (by decide +kernel)

theorem atomChars_of_iequals {a b : Bytes} (same : asciiIequals a b = true)
    (atoms : ∀ c ∈ b, isAtomChar c = true) :
    ∀ c ∈ a, isAtomChar c = true := by
  intro c member
  have upper : asciiToUpper c ∈ b.map asciiToUpper := beq_iff_eq.mp same ▸ List.mem_map_of_mem member
  obtain ⟨d, inside, equal⟩ := List.mem_map.mp upper
  rw [← atomChar_upper c, ← equal, atomChar_upper d]
  exact atoms d inside

namespace Cursor

@[simp] theorem tryConsume_self (c : UInt8) (text : Bytes) : tryConsume c (c :: text) = some text := by
  simp [tryConsume]

theorem tryConsume_of_ne {c d : UInt8} (other : d ≠ c) (text : Bytes) :
    tryConsume c (d :: text) = none := by
  simp [tryConsume, other]

@[simp] theorem tryConsume_nil (c : UInt8) : tryConsume c [] = none := rfl

theorem tryConsume_stops {c : UInt8} {text : Bytes} (stops : Stops (· == c) text) :
    tryConsume c text = none := by
  cases text with
  | nil => rfl
  | cons d text => exact tryConsume_of_ne (by simpa using stops d rfl) text

theorem readAtom_append {atom text : Bytes} (atoms : ∀ c ∈ atom, isAtomChar c = true)
    (stops : Stops isAtomChar text) :
    readAtom (atom ++ text) = (atom, text) := by
  rw [readAtom, takeWhile_run atoms stops, dropWhile_run atoms stops]

theorem readUntilAny_append {stops word text : Bytes} (outside : ∀ c ∈ word, c ∉ stops)
    (stopped : ∀ c, text.head? = some c → c ∈ stops) :
    readUntilAny stops (word ++ text) = (word, text) := by
  have all : ∀ c ∈ word, (!stops.contains c) = true := fun c member => by simpa using outside c member
  have halt : Stops (fun c => !stops.contains c) text := fun c head => by simpa using stopped c head
  rw [readUntilAny, takeWhile_run all halt, dropWhile_run all halt]

theorem skipSpaces_stops {text : Bytes} (stops : Stops (· == byte ' ') text) : skipSpaces text = text :=
  dropWhile_stops stops

theorem skipSpaces_space {text : Bytes} (stops : Stops (· == byte ' ') text) :
    skipSpaces (byte ' ' :: text) = text := by
  rw [skipSpaces, List.dropWhile_cons_of_pos (by simp)]
  exact skipSpaces_stops stops

theorem decimal_ne_nil (n : Nat) : decimal n ≠ [] := by
  simp [decimal, Nat.toDigits_ne_nil]

theorem fromChars_decimal {n : Nat} (fits : n < 2 ^ 64) : fromChars (decimal n) = some n := by
  rw [fromChars, decimalValue_decimal, if_pos fits]

theorem readNumber_decimal {n : Nat} (fits : n < 2 ^ 64) {text : Bytes} (stops : Stops isDigit text) :
    readNumber (decimal n ++ text) = (some n, text) := by
  rw [readNumber, takeWhile_run (decimal_digits n) stops, dropWhile_run (decimal_digits n) stops]
  simp [decimal_ne_nil, fromChars_decimal fits]

theorem readQuotedBody_escape {c : UInt8} (special : isQuotedSpecial c = true) (text : Bytes) :
    readQuotedBody (byte '\\' :: c :: text) =
    ((readQuotedBody text).1.map (c :: ·), (readQuotedBody text).2) := by
  rw [readQuotedBody, if_neg (by decide), if_pos (by decide), if_pos special]

theorem readQuotedBody_plain {c : UInt8} (plain : isQuotedSpecial c = false)
    (inside : c ≠ byte '\r' ∧ c ≠ byte '\n')
    {text : Bytes} (more : text ≠ []) :
    readQuotedBody (c :: text) = ((readQuotedBody text).1.map (c :: ·), (readQuotedBody text).2) := by
  obtain ⟨d, rest, rfl⟩ := List.exists_cons_of_ne_nil more
  simp only [isQuotedSpecial, Bool.or_eq_false_iff, beq_eq_false_iff_ne] at plain
  rw [readQuotedBody, if_neg (by simpa using plain.1), if_neg (by simpa using plain.2),
    if_neg (by simp [inside])]

theorem readQuotedBody_escaped {content : Bytes} (inside : ∀ c ∈ content, c ≠ byte '\r' ∧ c ≠ byte '\n')
    (text : Bytes) :
    readQuotedBody (content.flatMap (fun c => if c == byte '"' || c == byte '\\' then [byte '\\', c]
    else [c]) ++ byte '"' :: text) = (some content, text) := by
  induction content with
  | nil => cases text <;> rfl
  | cons c content ih =>
    have tail := ih fun d member => inside d (List.mem_cons_of_mem _ member)
    by_cases special : (c == byte '"' || c == byte '\\') = true
    · rw [List.flatMap_cons, if_pos special, List.append_assoc, List.cons_append, List.cons_append,
        List.nil_append, readQuotedBody_escape special, tail]
      rfl
    · rw [List.flatMap_cons, if_neg special, List.append_assoc, List.cons_append, List.nil_append,
        readQuotedBody_plain (by simpa [isQuotedSpecial] using special)
        (inside c List.mem_cons_self) (by simp), tail]
      rfl

theorem readQuoted_append {content : Bytes} (inside : ∀ c ∈ content, c ≠ byte '\r' ∧ c ≠ byte '\n')
    (text : Bytes) :
    readQuoted (appendQuoted content ++ text) = (some content, text) := by
  have layout : appendQuoted content ++ text = byte '"' ::
      (content.flatMap (fun c => if c == byte '"' || c == byte '\\' then [byte '\\', c] else [c]) ++
        byte '"' :: text) := by
    simp [appendQuoted]
  rw [layout, readQuoted, tryConsume_self]
  exact readQuotedBody_escaped inside text

end Cursor
end Bkmail
