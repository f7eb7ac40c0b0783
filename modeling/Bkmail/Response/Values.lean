import Bkmail.Response.Envelopes

namespace Bkmail

open Cursor Bkmail.Fetch

def Delimited (rest : Bytes) : Prop := ∀ c, rest.head? = some c → c = byte ' ' ∨ c = byte ')' ∨
    c = byte '('

theorem Delimited.space (rest : Bytes) : Delimited (byte ' ' :: rest) :=
  fun _ head => .inl (Option.some.inj head).symm

theorem Delimited.closing (rest : Bytes) : Delimited (byte ')' :: rest) :=
  fun _ head => .inr (.inl (Option.some.inj head).symm)

theorem Delimited.opening (rest : Bytes) : Delimited (byte '(' :: rest) :=
  fun _ head => .inr (.inr (Option.some.inj head).symm)

theorem Delimited.stops {rest : Bytes} (delimited : Delimited rest) : Stops isAtomChar rest := by
  intro c head
  rcases delimited c head with rfl | rfl | rfl <;> decide

/-- The words of a value: atoms, flags with their backslash, and quoted strings. -/
inductive ValueWord : Bytes → Prop where
  | atom {word : Bytes} (filled : word ≠ []) (atoms : ∀ c ∈ word, isAtomChar c = true) : ValueWord word
  | flag (name : Bytes) : ValueWord (byte '\\' :: name)
  | quoted (content : LineText) : ValueWord (appendQuoted content.bytes)

/-- The words that `skip_value` does not get past: no atom begins with a backslash, and the tilde
    is taken for the beginning of a literal. -/
def markedWord (word : Bytes) : Bool := word.head? == some (byte '\\') || word.head? == some (byte '~')

theorem ValueWord.head {word : Bytes} (value : ValueWord word) :
    ∃ c tail, word = c :: tail ∧ c ≠ byte ' ' ∧ c ≠ byte ')' := by
  cases value with
  | atom filled atoms =>
    obtain ⟨c, tail, rfl⟩ := List.exists_cons_of_ne_nil filled
    have own := atoms c List.mem_cons_self
    exact ⟨c, tail, rfl, ne_of_holds own rfl, ne_of_holds own rfl⟩
  | flag name => exact ⟨byte '\\', name, rfl, by decide⟩
  | quoted content => exact ⟨byte '"', _, rfl, by decide⟩

theorem ValueWord.skip {word : Bytes} (value : ValueWord word) {rest : Bytes}
    (delimited : Delimited rest) :
    skipValue (word ++ rest) = if markedWord word then none else some rest := by
  cases value with
  | atom filled atoms =>
    obtain ⟨c, tail, rfl⟩ := List.exists_cons_of_ne_nil filled
    have own := atoms c List.mem_cons_self
    have noOpening : c ≠ byte '(' := ne_of_holds own rfl
    have noQuote : c ≠ byte '"' := ne_of_holds own rfl
    have noBrace : c ≠ byte '\x7b' := ne_of_holds own rfl
    have noSlash : c ≠ byte '\\' := ne_of_holds own rfl
    have read := readAtom_append atoms delimited.stops
    rw [List.cons_append] at read ⊢
    rw [skipValue, skipValueIn, if_neg (by simpa using noOpening),
      if_neg (by simpa using noQuote), read]
    by_cases tilde : c = byte '~'
    · subst tilde
      have noLiteral : tryConsume (byte '\x7b') (tail ++ rest) = none := by
        refine tryConsume_stops fun d head => beq_eq_false_iff_ne.mpr fun same => ?_
        subst same
        cases tail with
        | nil => rcases delimited _ head with wrong | wrong | wrong <;> exact absurd wrong (by decide)
        | cons d tail =>
          obtain rfl := Option.some.inj head
          exact ne_of_holds (atoms (byte '\x7b') (by simp)) rfl rfl
      rw [if_pos (by decide), readLiteral]
      simp only [tryConsume_self, Option.getD_some, noLiteral]
      rfl
    · rw [if_neg (by simpa using ⟨noBrace, tilde⟩)]
      simp [markedWord, noSlash, tilde]
  | flag name =>
    have empty : readAtom (byte '\\' :: (name ++ rest)) = ([], byte '\\' :: (name ++ rest)) := by
      rw [readAtom, List.takeWhile_cons_of_neg (by decide), List.dropWhile_cons_of_neg (by decide)]
    rw [List.cons_append, skipValue, skipValueIn, if_neg (by decide), if_neg (by decide),
      if_neg (by decide), empty]
    rfl
  | quoted content =>
    have read := readQuoted_append content.inside rest
    obtain ⟨tail, shape⟩ : ∃ tail, appendQuoted content.bytes ++ rest = byte '"' :: tail := ⟨_, rfl⟩
    rw [shape] at read ⊢
    rw [skipValue, skipValueIn, if_neg (by decide), if_pos (by decide), read]
    rfl

namespace Phrase

def Values : Phrase → Prop
  | word text => ValueWord text.bytes
  | literal _ | unit => True
  | group inner => inner.Values
  | spaced left right | adjoined left right => left.Values ∧ right.Values
  | suffixed _ _ => False

def Single : Phrase → Prop
  | word _ | literal _ | unit | group _ => True
  | spaced _ _ | adjoined _ _ | suffixed _ _ => False

def marked : Phrase → Bool
  | word text => markedWord text.bytes
  | literal _ | unit => false
  | group inner => inner.marked
  | spaced left right | adjoined left right => left.marked || right.marked
  | suffixed left _ => left.marked

end Phrase

theorem skipMembers_cons {c : UInt8} (noSpace : c ≠ byte ' ') (noClosing : c ≠ byte ')')
    (text : Bytes) :
    skipMembers (c :: text) = (skipValue (c :: text)).bind skipMembers := by
  have stops : Stops (· == byte ' ') (c :: text) := .cons (by simpa using noSpace) text
  rw [skipMembers_eq, skipSpaces_stops stops, tryConsume_of_ne noClosing]
  rfl

theorem skipMembers_space (text : Bytes) : skipMembers (byte ' ' :: text) = skipMembers text := by
  have skipped : skipSpaces (byte ' ' :: text) = skipSpaces text := by simp [skipSpaces]
  rw [skipMembers_eq, skipMembers_eq, skipped]

theorem skipMembers_closing (rest : Bytes) : skipMembers (byte ')' :: rest) = some rest := by
  have stops : Stops (· == byte ' ') (byte ')' :: rest) := .cons (by decide) rest
  rw [skipMembers_eq, skipSpaces_stops stops, tryConsume_self]

namespace Phrase

theorem skipMembers_literal {octets : Bytes} (fits : (literal octets).Fits) (rest : Bytes) :
    skipValue ((literal octets).text ++ rest) = some rest := by
  have read := readLiteral_marker octets rest
  rw [if_pos ((fits_literal octets).mp fits)] at read
  obtain ⟨tail, shape⟩ : ∃ tail, (literal octets).text ++ rest = byte '\x7b' :: tail := ⟨_, rfl⟩
  rw [text_literal] at shape ⊢
  rw [shape] at read ⊢
  rw [skipValue, skipValueIn, if_neg (by decide), if_neg (by decide), if_pos (by decide), read]
  rfl

/-- The loop over the members of a list gets past values without a marked word and fails at the
    others. -/
theorem skipMembers_values {phrase : Phrase} (values : phrase.Values) (fits : phrase.Fits)
    {rest : Bytes}
    (delimited : Delimited rest) :
    skipMembers (phrase.text ++ rest) = if phrase.marked then none else skipMembers rest := by
  have grouped {inner : Phrase} (values : inner.Values) (fits : inner.Fits)
      (ih : ∀ {rest : Bytes}, Delimited rest →
        skipMembers (inner.text ++ rest) = if inner.marked then none else skipMembers rest)
      (rest : Bytes) : skipMembers (byte '(' :: (inner.text ++ byte ')' :: rest)) =
        if inner.marked then none else skipMembers rest := by
    rw [skipMembers_cons (by decide) (by decide), skipValue_open, ih (.closing rest),
      skipMembers_closing]
    split <;> rfl
  induction phrase generalizing rest with
  | word line =>
    obtain ⟨c, tail, shape, noSpace, noClosing⟩ := ValueWord.head values
    have skip := ValueWord.skip values delimited
    rw [shape, List.cons_append] at skip
    rw [text_word, marked, shape, List.cons_append, skipMembers_cons noSpace noClosing, skip]
    split <;> rfl
  | literal octets =>
    have skip := skipMembers_literal fits rest
    obtain ⟨tail, shape⟩ : ∃ tail, (literal octets).text ++ rest = byte '\x7b' :: tail := ⟨_, rfl⟩
    rw [shape] at skip ⊢
    rw [skipMembers_cons (by decide) (by decide), skip]
    rfl
  | unit =>
    rw [text_unit, List.cons_append, skipMembers_cons (by decide) (by decide), skipValue_open]
    exact congrArg (·.bind skipMembers) (skipMembers_closing rest)
  | group inner ih =>
    have members : inner.Values := values
    have inside : inner.Fits := fits_group.mp fits
    rw [text_group, List.cons_append, List.append_assoc, List.singleton_append]
    exact grouped members inside (ih members inside) rest
  | spaced left right ihLeft ihRight =>
    obtain ⟨fitsLeft, fitsRight⟩ := fits_spaced.mp fits
    rw [text_spaced, List.append_assoc, List.cons_append, ihLeft values.1 fitsLeft (.space _),
      skipMembers_space, ihRight values.2 fitsRight delimited, marked]
    cases left.marked <;> rfl
  | adjoined left inner ihLeft ihInner =>
    obtain ⟨fitsLeft, fitsInner⟩ := fits_adjoined.mp fits
    rw [text_adjoined, List.append_assoc, List.cons_append, List.append_assoc, List.singleton_append,
      ihLeft values.1 fitsLeft (.opening _),
      grouped values.2 fitsInner (ihInner values.2 fitsInner) rest, marked]
    cases left.marked <;> rfl
  | suffixed => cases values

theorem skipValue_value {phrase : Phrase} (values : phrase.Values) (single : phrase.Single)
    (fits : phrase.Fits)
    {rest : Bytes} (delimited : Delimited rest) :
    skipValue (phrase.text ++ rest) = if phrase.marked then none else some rest := by
  cases phrase with
  | word line =>
    rw [text_word]
    exact values.skip delimited
  | literal octets => exact skipMembers_literal fits rest
  | unit =>
    rw [text_unit, List.cons_append, skipValue_open]
    exact skipMembers_closing rest
  | group inner =>
    have inside : inner.Values := values
    rw [text_group, List.cons_append, List.append_assoc, List.singleton_append, skipValue_open,
      skipMembers_values inside (fits_group.mp fits) (.closing _), skipMembers_closing]
    rfl
  | spaced | adjoined | suffixed => cases single

end Phrase
end Bkmail
