import Bkmail.Response.Fetch
import Bkmail.Response.Grammar
import Bkmail.Response.Readers

namespace Bkmail

open Cursor

theorem Keyword.iequals {word : String} (keyword : Keyword word) (other : Bytes) :
    asciiIequals keyword.text.bytes other = asciiIequals (ascii word) other :=
  asciiIequals_congr keyword.spells other

theorem Keyword.atoms {word : String} (keyword : Keyword word)
    (atoms : ∀ c ∈ ascii word, isAtomChar c = true) :
    ∀ c ∈ keyword.text.bytes, isAtomChar c = true :=
  atomChars_of_iequals keyword.spells atoms

theorem Keyword.nonempty {word : String} (keyword : Keyword word) (letters : ascii word ≠ []) :
    keyword.text.bytes ≠ [] := by
  intro empty
  have upper := beq_iff_eq.mp keyword.spells
  rw [empty] at upper
  exact letters (List.map_eq_nil_iff.mp upper.symm)

theorem readLiteral_marker (octets after : Bytes) :
    readLiteral (marker octets.length ++ crlf ++ octets ++ after) =
      if octets.length < 2 ^ 64 then (some octets, after)
      else (none, marker octets.length ++ crlf ++ octets ++ after) := by
  have layout : marker octets.length ++ crlf ++ octets ++ after = byte '\x7b' ::
      (decimal octets.length ++ byte '\x7d' :: byte '\r' :: byte '\n' :: (octets ++ after)) := by
    simp [marker, crlf, ascii]
  have noDigit : isDigit (byte '\x7d') = false := rfl
  have digits := decimal_digits octets.length
  have noTilde (rest : Bytes) : tryConsume (byte '~') (byte '\x7b' :: rest) = none := rfl
  have brace (rest : Bytes) : tryConsume (byte '\x7b') (byte '\x7b' :: rest) = some rest := by
    simp [tryConsume]
  have noPlus (rest : Bytes) : tryConsume (byte '+') (byte '\x7d' :: rest) = none := rfl
  have fits : fromChars (decimal octets.length) =
      if octets.length < 2 ^ 64 then some octets.length else none := by
    rw [fromChars, decimalValue_decimal]
  rw [layout, readLiteral]
  simp only [noTilde, Option.getD_none, brace, List.takeWhile_append_of_pos digits,
    List.dropWhile_append_of_pos digits, List.takeWhile_cons, List.dropWhile_cons, noDigit,
    Bool.false_eq_true, if_false, List.append_nil, fits]
  rw [if_neg (by simpa using decimal_ne_nil octets.length)]
  by_cases small : octets.length < 2 ^ 64
  · simp only [if_pos small]
    simp [noPlus]
  · simp only [if_neg small]

namespace Phrase

def text (phrase : Phrase) : Bytes := onWire phrase.tokens

def Fits (phrase : Phrase) : Prop := ∀ octets, Token.literal octets ∈ phrase.tokens →
    octets.length < 2 ^ 64

attribute [simp] tokens Token.wire

variable {left right inner : Phrase}

@[simp] theorem text_word (line : LineText) : (word line).text = line.bytes := by
  simp [text, onWire]

@[simp] theorem text_literal (octets : Bytes) :
    (literal octets).text = marker octets.length ++ crlf ++ octets := by
  simp [text, onWire]

@[simp] theorem text_unit : unit.text = [byte '(', byte ')'] := rfl

@[simp] theorem text_group : (group inner).text = byte '(' :: (inner.text ++ [byte ')']) := by
  simp [text, onWire]

@[simp] theorem text_spaced : (spaced left right).text = left.text ++ byte ' ' :: right.text := by
  simp [text, onWire]

@[simp] theorem text_adjoined :
    (adjoined left inner).text = left.text ++ byte '(' :: (inner.text ++ [byte ')']) := by
  simp [text, onWire]

theorem text_groups (first : Phrase) (rest : List Phrase) :
    (groups first rest).text = (first :: rest).flatMap fun inner =>
    byte '(' :: (inner.text ++ [byte ')']) := by
  have appended (front : Phrase) : (rest.foldl adjoined front).text =
      front.text ++ rest.flatMap fun inner => byte '(' :: (inner.text ++ [byte ')']) := by
    induction rest generalizing front with
    | nil => simp
    | cons next rest ih => rw [List.foldl_cons, ih, text_adjoined, List.flatMap_cons, List.append_assoc]
  rw [groups, appended, text_group, List.flatMap_cons]

@[simp] theorem fits_word (line : LineText) : (word line).Fits := by simp [Fits]

@[simp] theorem fits_unit : unit.Fits := by simp [Fits]

@[simp] theorem fits_literal (octets : Bytes) : (literal octets).Fits ↔ octets.length < 2 ^ 64 := by
  simp [Fits]

@[simp] theorem fits_group : (group inner).Fits ↔ inner.Fits := by simp [Fits]

@[simp] theorem fits_spaced : (spaced left right).Fits ↔ left.Fits ∧ right.Fits := by
  simp [Fits, or_imp, forall_and]

@[simp] theorem fits_adjoined : (adjoined left inner).Fits ↔ left.Fits ∧ inner.Fits := by
  simp [Fits, or_imp, forall_and]

theorem fits_groups (first : Phrase) (rest : List Phrase) :
    (groups first rest).Fits ↔ ∀ inner ∈ first :: rest, inner.Fits := by
  have adjoined (front : Phrase) : (rest.foldl adjoined front).Fits ↔
      front.Fits ∧ ∀ inner ∈ rest, inner.Fits := by
    induction rest generalizing front with
    | nil => simp
    | cons next rest ih => rw [List.foldl_cons, ih, fits_adjoined, List.forall_mem_cons, and_assoc]
  rw [groups, adjoined, fits_group, List.forall_mem_cons]

end Phrase

theorem Phrase.literal_length {phrase : Phrase} {octets : Bytes}
    (member : Token.literal octets ∈ phrase.tokens) :
    octets.length ≤ phrase.text.length := by
  have inside : (Token.literal octets).wire.Sublist phrase.text := by
    rw [text, onWire, List.flatMap_def]
    exact List.sublist_flatten_of_mem (List.mem_map_of_mem member)
  refine Nat.le_trans ?_ inside.length_le
  simp only [Token.wire, List.length_append]
  exact Nat.le_add_left _ _

theorem Phrase.fits_of_length {phrase : Phrase} (short : phrase.text.length < 2 ^ 64) : phrase.Fits :=
  fun _ member => Nat.lt_of_le_of_lt (Phrase.literal_length member) short

def WireString.value : WireString → Bytes
  | quoted content => content.bytes
  | literal octets => octets

def NString.value : NString → Option Bytes
  | nil _ => none
  | string value => some value.value

theorem WireString.head (value : WireString) (rest : Bytes) :
    ∃ c text, value.phrase.text ++ rest = c :: text ∧ (c = byte '"' ∨ c = byte '\x7b') := by
  cases value with
  | quoted content =>
    rw [phrase, Phrase.text_word]
    exact ⟨byte '"', _, rfl, .inl rfl⟩
  | literal octets =>
    rw [phrase, Phrase.text_literal]
    exact ⟨byte '\x7b', _, rfl, .inr rfl⟩

theorem WireString.read (value : WireString) (fits : value.phrase.Fits) (rest : Bytes) :
    readString (value.phrase.text ++ rest) = (some value.value, rest) := by
  cases value with
  | quoted content =>
    have read := readQuoted_append content.inside rest
    have text : (quoted content).phrase.text = appendQuoted content.bytes := Phrase.text_word _
    rw [text]
    exact read
  | literal octets =>
    have read := readLiteral_marker octets rest
    rw [if_pos ((Phrase.fits_literal octets).mp fits)] at read
    rw [phrase, Phrase.text_literal]
    exact read

theorem WireString.noNil (value : WireString) (rest : Bytes) :
    asciiIequals ((value.phrase.text ++ rest).take 3) (ascii "NIL") = false := by
  obtain ⟨c, text, shape, first⟩ := value.head rest
  rw [shape]
  rcases first with rfl | rfl <;> rfl

theorem nil_take (spelling : Keyword "NIL") (rest : Bytes) :
    (spelling.text.bytes ++ rest).take 3 = spelling.text.bytes ∧
    (spelling.text.bytes ++ rest).drop 3 = rest := by
  have length : spelling.text.bytes.length = 3 := by
    simpa [ascii] using congrArg List.length (beq_iff_eq.mp spelling.spells)
  exact ⟨List.take_left' length, List.drop_left' length⟩

theorem nil_head (spelling : Keyword "NIL") :
    ∃ c tail, spelling.text.bytes = c :: tail ∧ asciiToUpper c = byte 'N' := by
  have letters := beq_iff_eq.mp spelling.spells
  cases shape : spelling.text.bytes with
  | nil =>
    rw [shape] at letters
    cases letters
  | cons c tail =>
    rw [shape] at letters
    exact ⟨c, tail, rfl, (List.cons.inj letters).1⟩

theorem stops_any {rest : Bytes} (stops : Stops isAtomChar rest) :
    rest.head?.any isAtomChar = false := by
  cases rest with
  | nil => rfl
  | cons c rest => exact stops c rfl

namespace NString

theorem read (value : NString) (fits : value.phrase.Fits) {rest : Bytes}
    (stops : Stops isAtomChar rest) :
    readNstring (value.phrase.text ++ rest) = (some value.value, rest) := by
  cases value with
  | nil spelling =>
    obtain ⟨taken, dropped⟩ := nil_take spelling rest
    simp [readNstring, phrase, NString.value, taken, dropped, spelling.spells, stops_any stops]
  | string value =>
    have noNil := value.noNil rest
    have read := value.read fits rest
    simp only [phrase, NString.value, readNstring, noNil, Bool.false_and, Bool.false_eq_true,
      if_false, read]
    rfl

def bytes (value : NString) : Bytes := value.value.getD []

theorem readNstr (value : NString) (fits : value.phrase.Fits) {member rest : Bytes}
    (stops : Stops isAtomChar rest) :
    Fetch.readNstr member (value.phrase.text ++ rest) = some (value.value.getD member, rest) := by
  rw [Fetch.readNstr, value.read fits stops]
  rfl

theorem noSpace (value : NString) (rest : Bytes) :
    Stops (· == byte ' ') (value.phrase.text ++ rest) := by
  cases value with
  | nil spelling =>
    obtain ⟨c, tail, shape, upper⟩ := nil_head spelling
    have letter : ∀ c : UInt8, asciiToUpper c = byte 'N' → (c == byte ' ') = false :=
      forall_byte (by decide +kernel)
    rw [phrase, Phrase.text_word, shape]
    refine .cons ?_ _
    exact letter c upper
  | string value =>
    obtain ⟨c, text, shape, first⟩ := value.head rest
    rw [phrase, shape]
    rcases first with rfl | rfl <;> exact .cons (by decide) _

theorem readNstr_next (value : NString) (fits : value.phrase.Fits) {member rest : Bytes}
    (stops : Stops isAtomChar rest) :
    Fetch.readNstr member (skipSpaces (byte ' ' :: (value.phrase.text ++ rest))) =
      some (value.value.getD member, rest) := by
  rw [skipSpaces_space (value.noSpace rest), value.readNstr fits stops]

end NString
end Bkmail
