import Bkmail.Response.Shallow
import Bkmail.Response.Strings

namespace Bkmail

open Cursor Bkmail.Parser

theorem Keyword.readAtom_append {word : String} (keyword : Keyword word)
    (atoms : ∀ c ∈ ascii word, isAtomChar c = true) {rest : Bytes} (stops : Stops isAtomChar rest) :
    readAtom (keyword.text.bytes ++ rest) = (keyword.text.bytes, rest) :=
  Cursor.readAtom_append (keyword.atoms atoms) stops

theorem stops_space (rest : Bytes) : Stops isAtomChar (byte ' ' :: rest) := .cons (by decide) rest

section Codes

theorem readCapabilities_render (capabilities : List AtomText) {fuel : Nat}
    (enough : capabilities.length < fuel) :
    readCapabilities fuel (capabilities.flatMap (byte ' ' :: ·.bytes)) =
    capabilities.map AtomText.bytes := by
  induction capabilities generalizing fuel with
  | nil => cases fuel <;> rfl
  | cons first rest ih =>
    obtain ⟨fuel, rfl⟩ := Nat.exists_eq_succ_of_ne_zero (Nat.ne_zero_of_lt enough)
    have stops : Stops isAtomChar (rest.flatMap (byte ' ' :: ·.bytes)) := by
      cases rest with
      | nil => exact .nil _
      | cons next rest => exact stops_space _
    have tail := ih (Nat.lt_of_succ_lt_succ enough)
    rw [List.flatMap_cons, readCapabilities, List.cons_append, tryConsume_self]
    simp only [Cursor.readAtom_append first.atoms stops, tail]
    simp [first.nonempty]

theorem CharsetText.readAstring_render (charset : CharsetText) {rest : Bytes}
    (stops : Stops isAtomChar rest) :
    readAstring (charset.render ++ rest) = (some charset.value, rest) := by
  cases charset with
  | atom name noTilde =>
    obtain ⟨c, tail, shape⟩ := List.exists_cons_of_ne_nil name.nonempty
    have plain := name.atoms c (shape ▸ List.mem_cons_self)
    have other : (c == byte '"' || c == byte '\x7b' || c == byte '~') = false := by
      have quote : c ≠ byte '"' := ne_of_holds plain rfl
      have brace : c ≠ byte '\x7b' := ne_of_holds plain rfl
      have tilde : c ≠ byte '~' := fun same => noTilde (by rw [shape, same]; rfl)
      simp [quote, brace, tilde]
    have read := Cursor.readAtom_append name.atoms stops
    simp only [render, value]
    rw [shape] at read ⊢
    rw [List.cons_append] at read ⊢
    simp only [readAstring, other, read]
    rfl
  | quoted content => exact readQuoted_append content.inside rest

theorem readCharsets_space (fuel : Nat) (text : Bytes) :
    readCharsets (fuel + 1) (byte ' ' :: text) = readCharsets (fuel + 1) text := by
  have skipped : skipSpaces (byte ' ' :: text) = skipSpaces text := by simp [skipSpaces]
  rw [readCharsets, readCharsets, skipped]

theorem mapFlag_render (flag : FlagText) (flags : FlagSet) :
    mapFlag flag.render flags = flag.apply flags := by
  cases flag with
  | system flag name =>
    simp only [FlagText.render, FlagText.apply, mapFlag, name.iequals]
    cases flag <;> rfl
  | other text nonempty inside unknown =>
    have seen : asciiIequals text (ascii "\\Seen") = false := unknown .seen
    have answered : asciiIequals text (ascii "\\Answered") = false := unknown .answered
    have flagged : asciiIequals text (ascii "\\Flagged") = false := unknown .flagged
    have deleted : asciiIequals text (ascii "\\Deleted") = false := unknown .deleted
    have draft : asciiIequals text (ascii "\\Draft") = false := unknown .draft
    have recent : asciiIequals text (ascii "\\Recent") = false := unknown .recent
    simp [FlagText.render, FlagText.apply, mapFlag, seen, answered, flagged, deleted, draft, recent]

theorem stops_word {run : UInt8 → Bool} {word : Bytes} (nonempty : word ≠ [])
    (outside : ∀ c ∈ word, run c = false)
    (rest : Bytes) : Stops run (word ++ rest) := by
  obtain ⟨c, tail, rfl⟩ := List.exists_cons_of_ne_nil nonempty
  exact .cons (outside c List.mem_cons_self) (tail ++ rest)

theorem stops_byte {word : Bytes} (nonempty : word ≠ []) {c : UInt8} (fresh : c ∉ word) (rest : Bytes) :
    Stops (· == c) (word ++ rest) :=
  stops_word nonempty (fun _ member => beq_eq_false_iff_ne.mpr (ne_of_mem_of_not_mem member fresh)) rest

theorem stops_words (words : List Bytes) :
    Stops isAtomChar (words.flatMap (byte ' ' :: ·) ++ [byte ')']) := by
  cases words with
  | nil => exact .cons (by decide) _
  | cons first rest => exact stops_space _

theorem CharsetText.stops (charset : CharsetText) {c : UInt8} (special : isAtomSpecial c = true)
    (unquoted : c ≠ byte '"')
    (rest : Bytes) : Stops (· == c) (charset.render ++ rest) := by
  cases charset with
  | atom name noTilde =>
    refine stops_byte name.nonempty (fun member => ?_) rest
    have plain := name.atoms c member
    simp [isAtomChar, special] at plain
  | quoted content =>
    intro d head
    obtain rfl := Option.some.inj head
    exact beq_eq_false_iff_ne.mpr unquoted.symm

theorem readCharsets_render (charsets : List CharsetText) {fuel : Nat}
    (enough : charsets.length < fuel) :
    readCharsets fuel ((charsets.map CharsetText.render).flatMap (byte ' ' :: ·) ++ [byte ')']) =
      .inl (charsets.map CharsetText.value) := by
  induction charsets generalizing fuel with
  | nil =>
    obtain ⟨fuel, rfl⟩ := Nat.exists_eq_succ_of_ne_zero (Nat.ne_zero_of_lt enough)
    rfl
  | cons first rest ih =>
    obtain ⟨fuel, rfl⟩ := Nat.exists_eq_succ_of_ne_zero (Nat.ne_zero_of_lt enough)
    have tail := ih (Nat.lt_of_succ_lt_succ enough)
    have stops := stops_words (rest.map CharsetText.render)
    generalize behind :
      (rest.map CharsetText.render).flatMap (byte ' ' :: ·) ++ [byte ')'] = text at tail stops
    have noSpace := first.stops (c := byte ' ') (by decide) (by decide) text
    have noParen := first.stops (c := byte ')') (by decide) (by decide) text
    rw [List.map_cons, List.flatMap_cons, List.append_assoc, behind, List.cons_append,
      readCharsets_space, readCharsets]
    simp only [skipSpaces_stops noSpace, tryConsume_stops noParen, first.readAstring_render stops, tail]
    rfl

theorem readPermanentFlags_space (fuel : Nat) (text : Bytes) (flags : FlagSet) :
    readPermanentFlags (fuel + 1) (byte ' ' :: text) flags =
    readPermanentFlags (fuel + 1) text flags := by
  have skipped : skipSpaces (byte ' ' :: text) = skipSpaces text := by simp [skipSpaces]
  rw [readPermanentFlags, readPermanentFlags, skipped]

theorem FlagText.inside (flag : FlagText) : flag.render ≠ [] ∧ ∀ c ∈ flag.render, c ∉ ascii " )" := by
  cases flag with
  | system flag name =>
    have letters := beq_iff_eq.mp name.spells
    refine ⟨fun empty => ?_, fun c member stop => ?_⟩
    · rw [FlagText.render] at empty
      rw [empty] at letters
      cases flag <;> cases letters
    · have upper : asciiToUpper c ∈ (ascii flag.name).map asciiToUpper :=
        letters ▸ List.mem_map_of_mem member
      rcases List.mem_pair.mp stop with rfl | rfl <;> revert upper <;> cases flag <;> decide
  | other text nonempty inside unknown => exact ⟨nonempty, inside⟩

theorem readPermanentFlags_render (flags : List FlagText) {fuel : Nat}
    (enough : flags.length < fuel) (set : FlagSet) :
    readPermanentFlags fuel ((flags.map FlagText.render).flatMap (byte ' ' :: ·) ++ [byte ')']) set =
      .inl (flags.foldl FlagText.apply set) := by
  induction flags generalizing fuel set with
  | nil =>
    obtain ⟨fuel, rfl⟩ := Nat.exists_eq_succ_of_ne_zero (Nat.ne_zero_of_lt enough)
    rfl
  | cons first rest ih =>
    obtain ⟨fuel, rfl⟩ := Nat.exists_eq_succ_of_ne_zero (Nat.ne_zero_of_lt enough)
    have tail := ih (Nat.lt_of_succ_lt_succ enough) (first.apply set)
    obtain ⟨nonempty, inside⟩ := first.inside
    have stopped :
      ∀ c, ((rest.map FlagText.render).flatMap (byte ' ' :: ·) ++ [byte ')']).head? = some c →
        c ∈ ascii " )" := by
      intro c head
      cases rest <;> exact Option.some.inj head ▸ by decide
    generalize behind :
      (rest.map FlagText.render).flatMap (byte ' ' :: ·) ++ [byte ')'] = text at tail stopped
    have read := readUntilAny_append inside stopped
    have noSpace := stops_byte nonempty (c := byte ' ') (fun member => inside _ member (by decide)) text
    have noParen := stops_byte nonempty (c := byte ')') (fun member => inside _ member (by decide)) text
    rw [List.map_cons, List.flatMap_cons, List.append_assoc, behind, List.cons_append,
      readPermanentFlags_space, readPermanentFlags]
    simp only [skipSpaces_stops noSpace, tryConsume_stops noParen, read, mapFlag_render, tail]
    simp [nonempty]

theorem numberCode_decimal (atom : Bytes) {n : Nat} (fits : n < 2 ^ 32) (make : Nat → ResponseCode) :
    numberCode atom (byte ' ' :: decimal n) make = make n := by
  have read := readNumber_decimal (Nat.lt_trans fits (by decide)) (Stops.nil isDigit)
  rw [List.append_nil] at read
  rw [numberCode, tryConsume_self]
  simp only [read, Nat.mod_eq_of_lt fits]

theorem badcharsetCode_render (atom : Bytes) (charsets : List CharsetText) :
    badcharsetCode atom (ascii " (" ++ spaceSeparated (charsets.map CharsetText.render) ++ [byte ')']) =
      .badcharset (charsets.map CharsetText.value) := by
  have enough : charsets.length <
      (spaceSeparated (charsets.map CharsetText.render) ++ [byte ')']).length + 1 := by
    have := length_spaceSeparated (charsets.map CharsetText.render)
    simp only [List.length_map, List.length_append, List.length_singleton] at this ⊢
    omega
  have read := readCharsets_render charsets enough
  rw [← spaceSeparated_read _ (readCharsets_space _)] at read
  change badcharsetCode atom (byte ' ' :: byte '(' ::
    (spaceSeparated (charsets.map CharsetText.render) ++ [byte ')'])) = _
  rw [badcharsetCode, tryConsume_self]
  simp only [tryConsume_self, read]

theorem permanentflagsCode_render (atom : Bytes) (flags : List FlagText) :
    permanentflagsCode atom (ascii " (" ++ spaceSeparated (flags.map FlagText.render) ++ [byte ')']) =
      .permanentflags (flags.foldl FlagText.apply {}) := by
  have enough :
      flags.length < (spaceSeparated (flags.map FlagText.render) ++ [byte ')']).length + 1 := by
    have := length_spaceSeparated (flags.map FlagText.render)
    simp only [List.length_map, List.length_append, List.length_singleton] at this ⊢
    omega
  have read := readPermanentFlags_render flags enough {}
  have skips (text : Bytes) :=
    readPermanentFlags_space (spaceSeparated (flags.map FlagText.render) ++
    [byte ')']).length text {}
  rw [← spaceSeparated_read (readPermanentFlags _ · {}) skips] at read
  change permanentflagsCode atom (byte ' ' :: byte '(' ::
    (spaceSeparated (flags.map FlagText.render) ++ [byte ')'])) = _
  rw [permanentflagsCode, tryConsume_self]
  simp only [tryConsume_self, read]

theorem parseRespCode_render (code : CodeText) : parseRespCode code.render = code.value := by
  have whole {word : String} (name : Keyword word) (atoms : ∀ c ∈ ascii word, isAtomChar c = true) :
      readAtom name.text.bytes = (name.text.bytes, []) := by
    simpa using name.readAtom_append atoms (.nil _)
  cases code with
  | alert name | parse name | readOnly name | readWrite name | trycreate name =>
    simp only [CodeText.render, parseRespCode, whole name (List.all_eq_true.mp rfl), name.iequals]
    rfl
  | uidnext name n fits | uidvalidity name n fits | unseen name n fits =>
    simp only [CodeText.render, parseRespCode,
      name.readAtom_append (List.all_eq_true.mp rfl) (stops_space _), name.iequals]
    exact numberCode_decimal _ fits _
  | capability name capabilities =>
    have stops : Stops isAtomChar (capabilities.flatMap (byte ' ' :: ·.bytes)) := by
      cases capabilities with
      | nil => exact .nil _
      | cons first rest => exact stops_space _
    have enough := Nat.lt_succ_of_le (length_le_flatMap capabilities AtomText.bytes)
    simp only [CodeText.render, parseRespCode, name.readAtom_append (List.all_eq_true.mp rfl) stops,
      name.iequals, readCapabilities_render capabilities enough]
    rfl
  | badcharset name charsets =>
    cases charsets with
    | none =>
      simp only [CodeText.render, parseRespCode, whole name (List.all_eq_true.mp rfl), name.iequals]
      rfl
    | some charsets =>
      have read := name.readAtom_append (List.all_eq_true.mp rfl)
        (stops_space (byte '(' :: (spaceSeparated (charsets.map CharsetText.render) ++ [byte ')'])))
      have layout : (CodeText.badcharset name (some charsets)).render = name.text.bytes ++
          byte ' ' :: byte '(' :: (spaceSeparated (charsets.map CharsetText.render) ++ [byte ')']) := by
        simp [CodeText.render, ascii]
      rw [layout, parseRespCode, read]
      simp only [name.iequals]
      exact badcharsetCode_render _ charsets
  | permanentflags name flags =>
    have read := name.readAtom_append (List.all_eq_true.mp rfl)
      (stops_space (byte '(' :: (spaceSeparated (flags.map FlagText.render) ++ [byte ')'])))
    have layout : (CodeText.permanentflags name flags).render = name.text.bytes ++
        byte ' ' :: byte '(' :: (spaceSeparated (flags.map FlagText.render) ++ [byte ')']) := by
      simp [CodeText.render, ascii]
    rw [layout, parseRespCode, read]
    simp only [name.iequals]
    exact permanentflagsCode_render _ flags
  | unknown atom arguments =>
    have names := atom.other
    simp only [codeNames, List.forall_mem_cons] at names
    simp [CodeText.render, CodeText.value, parseRespCode,
      Cursor.readAtom_append atom.atoms (stops_space arguments), names,
      makeUnknown]
  | unknownGlued atom arguments stops noSpace =>
    have names := atom.other
    simp only [codeNames, List.forall_mem_cons] at names
    simp [CodeText.render, CodeText.value, parseRespCode, Cursor.readAtom_append atom.atoms stops,
      names, makeUnknown, tryConsume_stops noSpace]

end Codes

theorem classifyStatus_word {status : ResponseStatus} (word : Keyword status.name) :
    classifyStatus word.text.bytes = some status := by
  simp only [classifyStatus, word.iequals]
  cases status <;> rfl

theorem status_atoms (status : ResponseStatus) : ∀ c ∈ ascii status.name, isAtomChar c = true := by
  cases status <;> exact List.all_eq_true.mp rfl

theorem parseRespText_bracket {inner : Bytes} (closed : byte ']' ∉ inner) (text : Bytes) :
    parseRespText (byte ' ' :: (byte '[' :: inner ++ ascii "] " ++ text)) =
    some (some (parseRespCode inner), text) := by
  have read : readUntilAny (ascii "]") (inner ++ byte ']' :: byte ' ' :: text) =
    (inner, byte ']' :: byte ' ' :: text) :=
    readUntilAny_append (fun c member => fun stop => closed (List.mem_singleton.mp stop ▸ member))
      (fun c head => Option.some.inj head ▸ by decide)
  have layout : byte '[' :: inner ++ ascii "] " ++ text =
      byte '[' :: (inner ++ byte ']' :: byte ' ' :: text) := by
    simp [ascii]
  rw [layout, parseRespText, tryConsume_self]
  simp only [tryConsume_self, read, Option.getD_some]

theorem parseRespText_render (text : StatusText) :
    parseRespText (byte ' ' :: text.render) = some (text.code, text.text) := by
  cases text with
  | plain text noBracket =>
    have stops : Stops (· == byte '[') text :=
      fun c head => beq_eq_false_iff_ne.mpr fun same => noBracket (same ▸ head)
    rw [parseRespText, tryConsume_self]
    simp only [StatusText.render, tryConsume_stops stops]
    rfl
  | coded code closed text =>
    rw [StatusText.render, parseRespText_bracket closed, parseRespCode_render]
    rfl

theorem digit_upper : ∀ c : UInt8, isDigit (asciiToUpper c) = isDigit c :=
  forall_byte (by decide +kernel)

theorem Keyword.noDigit {word : String} (keyword : Keyword word)
    (letters : Stops isDigit (ascii word)) :
    Stops isDigit keyword.text.bytes := by
  intro c head
  have upper := congrArg List.head? (beq_iff_eq.mp keyword.spells)
  rw [List.head?_map, List.head?_map, head] at upper
  obtain ⟨d, first, same⟩ := Option.map_eq_some_iff.mp upper.symm
  rw [← digit_upper c, ← same, digit_upper d, letters d first]

section Untagged

variable {word rest : Bytes} (atoms : ∀ c ∈ word, isAtomChar c = true) (stops : Stops isAtomChar rest)

include atoms stops

theorem parse_statusWord (nonempty : word ≠ []) (noDigit : Stops isDigit word) {status : ResponseStatus}
    (known : classifyStatus word = some status) :
    parse (ascii "* " ++ (word ++ rest)) = (parseRespText rest).map fun (code, text) =>
      .untagged { kind := kindFor status, status, code, text } := by
  obtain ⟨c, tail, rfl⟩ := List.exists_cons_of_ne_nil nonempty
  have read := Cursor.readAtom_append atoms stops
  have letter := noDigit c rfl
  rw [List.cons_append] at read ⊢
  change parseUntagged (byte '*' :: byte ' ' :: c :: (tail ++ rest)) = _
  rw [parseUntagged, List.drop_succ_cons, List.drop_zero, tryConsume_self]
  simp [letter, read, known]

theorem parse_dataWord (nonempty : word ≠ []) (noDigit : Stops isDigit word)
    (unknown : classifyStatus word = none) :
    parse (ascii "* " ++ (word ++ rest)) = some (.untagged {
      kind := dataKind word
      payload := if dataKind word = .unknown then word ++ rest
        else (tryConsume (byte ' ') rest).getD [] }) := by
  obtain ⟨c, tail, rfl⟩ := List.exists_cons_of_ne_nil nonempty
  have read := Cursor.readAtom_append atoms stops
  have letter := noDigit c rfl
  rw [List.cons_append] at read ⊢
  change parseUntagged (byte '*' :: byte ' ' :: c :: (tail ++ rest)) = _
  rw [parseUntagged, List.drop_succ_cons, List.drop_zero, tryConsume_self]
  simp only [List.head?_cons, Option.any_some, letter, Bool.false_eq_true, if_false, read,
    List.isEmpty_cons, unknown]
  cases dataKind (c :: tail) <;> rfl

theorem parse_numbered {number : Nat} (fits : number < 2 ^ 64) :
    parse (ascii "* " ++ (decimal number ++ byte ' ' :: (word ++ rest))) =
      some (.untagged { kind := numberedKind word, number, payload := match numberedKind word with
        | .fetch => (tryConsume (byte ' ') rest).getD []
        | .unknown => decimal number ++ byte ' ' :: (word ++ rest)
        | _ => [] }) := by
  obtain ⟨c, tail, shape⟩ := List.exists_cons_of_ne_nil (decimal_ne_nil number)
  have digit := decimal_digits number c (shape ▸ List.mem_cons_self)
  have space : Stops isDigit (byte ' ' :: (word ++ rest)) := .cons (by decide) (word ++ rest)
  have numberRead := readNumber_decimal fits space
  have read := Cursor.readAtom_append atoms stops
  have first : (decimal number ++ byte ' ' :: (word ++ rest)).head?.any isDigit =
    true := by simp [shape, digit]
  change parseUntagged (byte '*' :: byte ' ' :: (decimal number ++ byte ' ' :: (word ++ rest))) = _
  rw [parseUntagged, List.drop_succ_cons, List.drop_zero, tryConsume_self]
  cases kind : numberedKind word <;> simp only [first, if_true, parseNumbered, numberRead,
    tryConsume_self, read, kind]

end Untagged

theorem parse_statusLine (line : StatusLine) {text : Bytes} {code : Option ResponseCode} {rest : Bytes}
    (read : parseRespText (byte ' ' :: text) = some (code, rest)) :
    parse (line.render text) = some (line.value code rest) := by
  cases line with
  | tagged tag noPlus status completion word =>
    obtain ⟨c, tail, shape⟩ := List.exists_cons_of_ne_nil tag.nonempty
    have noStar : (c == byte '*') = false :=
      beq_eq_false_iff_ne.mpr (ne_of_holds (tag.atoms c (shape ▸ List.mem_cons_self)) rfl)
    have plus : (c == byte '+') = false :=
      beq_eq_false_iff_ne.mpr fun same => noPlus (by rw [shape, same]; rfl)
    have tagRead := Cursor.readAtom_append tag.atoms (stops_space (word.text.bytes ++ byte ' ' :: text))
    have wordRead := word.readAtom_append (status_atoms status) (stops_space text)
    have layout : (StatusLine.tagged tag noPlus status completion word).render text =
        tag.bytes ++ byte ' ' :: (word.text.bytes ++ byte ' ' :: text) := by simp [StatusLine.render]
    have entry : parse (tag.bytes ++ byte ' ' :: (word.text.bytes ++ byte ' ' :: text)) =
        parseTagged (tag.bytes ++ byte ' ' :: (word.text.bytes ++ byte ' ' :: text)) := by
      rw [shape, List.cons_append, parse]
      simp [plus, noStar]
    rw [layout, entry, parseTagged, tagRead]
    simp only [tryConsume_self, wordRead, classifyStatus_word word, read]
    rw [if_neg (by simpa using tag.nonempty)]
    rcases completion with rfl | rfl | rfl <;> rfl
  | untagged status word =>
    have nonempty := word.nonempty (by cases status <;> decide)
    have noDigit := word.noDigit (by cases status <;> exact .cons (by decide) _)
    rw [StatusLine.render, List.append_assoc,
      parse_statusWord (word.atoms (status_atoms status)) (stops_space text)
      nonempty noDigit (classifyStatus_word word), read]
    rfl

theorem parse_numberedWord {number : Nat} (fits : number < 2 ^ 64) {keyword : NumberedKeyword}
    (word : Keyword keyword.name) :
    parse (ShallowResponse.numbered number fits keyword word).render =
      some (ShallowResponse.numbered number fits keyword word).value := by
  have atoms := word.atoms (by cases keyword <;> exact List.all_eq_true.mp rfl)
  have kind : numberedKind word.text.bytes = keyword.kind := by
    simp only [numberedKind, word.iequals]
    cases keyword <;> rfl
  have read := parse_numbered atoms (.nil _) fits
  rw [kind, List.append_nil] at read
  simp only [ShallowResponse.render, List.append_assoc, read]
  cases keyword <;> rfl

theorem parse_fetch {number : Nat} (fits : number < 2 ^ 64) (word : Keyword "FETCH") (payload : Bytes) :
    parse (ShallowResponse.fetch number fits word payload).render =
      some (ShallowResponse.fetch number fits word payload).value := by
  have kind : numberedKind word.text.bytes = .fetch := by
    simp only [numberedKind, word.iequals]
    rfl
  have read := parse_numbered (word.atoms (List.all_eq_true.mp rfl)) (stops_space payload) fits
  rw [kind] at read
  simp only [ShallowResponse.render, List.append_assoc, List.cons_append, read, tryConsume_self]
  rfl

theorem parse_data {keyword : DataKeyword} (word : Keyword keyword.name) (payload : Option Bytes) :
    parse (ShallowResponse.data keyword word payload).render =
    some (ShallowResponse.data keyword word payload).value := by
  have atoms := word.atoms (by cases keyword <;> exact List.all_eq_true.mp rfl)
  have nonempty := word.nonempty (by cases keyword <;> decide)
  have noDigit := word.noDigit (by cases keyword <;> exact .cons (by decide) _)
  have noStatus : classifyStatus word.text.bytes = none := by
    simp only [classifyStatus, word.iequals]
    cases keyword <;> rfl
  have kind : dataKind word.text.bytes = keyword.kind := by
    simp only [dataKind, word.iequals]
    cases keyword <;> rfl
  have known : keyword.kind ≠ .unknown := by cases keyword <;> decide
  cases payload with
  | none =>
    have read := parse_dataWord atoms (.nil _) nonempty noDigit noStatus
    rw [kind, if_neg known, List.append_nil] at read
    rw [ShallowResponse.render, read]
    rfl
  | some payload =>
    have read := parse_dataWord atoms (stops_space payload) nonempty noDigit noStatus
    rw [kind, if_neg known, tryConsume_self] at read
    rw [ShallowResponse.render, List.append_assoc, read]
    rfl

theorem parse_unknown (word : OtherWord untaggedNames) (nonempty : word.bytes ≠ [])
    (noDigit : Stops isDigit word.bytes)
    (rest : Bytes) (stops : Stops isAtomChar rest) :
    parse (ShallowResponse.unknown word nonempty noDigit rest stops).render =
      some (ShallowResponse.unknown word nonempty noDigit rest stops).value := by
  have names := word.other
  simp only [untaggedNames, List.forall_mem_cons] at names
  have noStatus : classifyStatus word.bytes = none := by simp [classifyStatus, names]
  have kind : dataKind word.bytes = .unknown := by simp [dataKind, names]
  rw [ShallowResponse.render, List.append_assoc,
    parse_dataWord word.atoms stops nonempty noDigit noStatus, kind,
    if_pos rfl]
  rfl

theorem parse_unknownNumbered {number : Nat} (fits : number < 2 ^ 64)
    (word : OtherWord numberedNames) (rest : Bytes)
    (stops : Stops isAtomChar rest) :
    parse (ShallowResponse.unknownNumbered number fits word rest stops).render =
      some (ShallowResponse.unknownNumbered number fits word rest stops).value := by
  have names := word.other
  simp only [numberedNames, List.forall_mem_cons] at names
  have kind : numberedKind word.bytes = .unknown := by simp [numberedKind, names]
  have read := parse_numbered word.atoms stops fits
  rw [kind] at read
  simp only [ShallowResponse.render, ShallowResponse.value, List.append_assoc, List.cons_append, read]

theorem parse_render : ∀ response : ShallowResponse, parse response.render = some response.value
  | .continuation _ => rfl
  | .status line text => parse_statusLine line (parseRespText_render text)
  | .numbered _ fits _ word => parse_numberedWord fits word
  | .fetch _ fits word payload => parse_fetch fits word payload
  | .data _ word payload => parse_data word payload
  | .unknown word nonempty noDigit rest stops => parse_unknown word nonempty noDigit rest stops
  | .unknownNumbered _ fits word rest stops => parse_unknownNumbered fits word rest stops

/-- Parsing inverts rendering, and whatever stands in the bracket of a status text leaves the rest
    of the response as it is. -/
theorem parse_inverts_render :
    (∀ response : ShallowResponse, parse response.render = some response.value) ∧
    ∀ (line : StatusLine) (inner text : Bytes), byte ']' ∉ inner →
      ∃ code, parse (line.render (byte '[' :: inner ++ ascii "] " ++ text)) =
      some (line.value (some code) text) :=
  ⟨parse_render, fun line _ text closed =>
    ⟨_, parse_statusLine line (parseRespText_bracket closed text)⟩⟩

end Bkmail
