import Bkmail.Response.Walk

namespace Bkmail

open Cursor Bkmail.Fetch

/-! BODYSTRUCTURE as a server writes it: a tree of parts, with an extension tail at each of them. -/

inductive TailDatum where
  | nil (spelling : Keyword "NIL")
  | number (n : Nat)
  | atom (name : AtomText)
  | string (value : WireString)
  | list (members : List TailDatum)

mutual

def TailDatum.expression : TailDatum → SExpression
  | .nil spelling => .atom ⟨spelling.text.bytes, spelling.nonempty (by decide),
      spelling.atoms (List.all_eq_true.mp rfl)⟩
  | .number n => .atom ⟨decimal n, decimal_ne_nil n, fun c member =>
      digit_atomChar c (decimal_digits n c member)⟩
  | .atom name => .atom name
  | .string value => .string value
  | .list members => .list (TailDatum.expressions members)

def TailDatum.expressions : List TailDatum → List SExpression
  | [] => []
  | first :: rest => first.expression :: TailDatum.expressions rest

end

def TailDatum.phrase (datum : TailDatum) : Phrase := datum.expression.phrase

mutual

def TailDatum.tilde : TailDatum → Bool
  | .nil _ | .number _ | .string _ => false
  | .atom name => name.bytes.head? == some (byte '~')
  | .list members => TailDatum.tildes members

def TailDatum.tildes : List TailDatum → Bool
  | [] => false
  | first :: rest => first.tilde || TailDatum.tildes rest

end

def WireBodyParams.pairs : WireBodyParams → List (WireString × WireString)
  | nil _ => []
  | params first rest => first :: rest

inductive WireStructure where
  | basic (mediaType subtype : WireString) (params : WireBodyParams) (id description : NString)
      (encoding : WireString)
    (octets : Nat) (fits : octets < 2 ^ 64) (tail : List TailDatum)
  | multipart (first : WireStructure) (rest : List WireStructure) (subtype : WireString)
      (tail : List TailDatum)

mutual

def WireStructure.inner : WireStructure → Phrase
  | .basic mediaType subtype params id description encoding octets _ tail =>
    .sequence mediaType.phrase ([subtype.phrase, params.phrase, id.phrase, description.phrase,
      encoding.phrase, numberPhrase octets] ++ tail.map TailDatum.phrase)
  | .multipart first rest subtype tail =>
    .sequence (.groups first.inner (WireStructure.inners rest)) (subtype.phrase ::
      tail.map TailDatum.phrase)

def WireStructure.inners : List WireStructure → List Phrase
  | [] => []
  | first :: rest => first.inner :: WireStructure.inners rest

end

def WireStructure.text (body : WireStructure) : Bytes := byte '(' :: (body.inner.text ++ [byte ')'])

mutual

def WireStructure.value : WireStructure → BodyStructure
  | .basic mediaType subtype params id description encoding octets _ _ =>
    { mediaType := mediaType.value, subtype := subtype.value
      parameters := params.pairs.map fun (name, value) => (name.value, value.value)
      id := id.bytes, description := description.bytes, encoding := encoding.value, octets }
  | .multipart first rest subtype _ =>
    { mediaType := ascii "multipart", subtype := subtype.value, parts := first.value :: WireStructure.values rest }

def WireStructure.values : List WireStructure → List BodyStructure
  | [] => []
  | first :: rest => first.value :: WireStructure.values rest

end

mutual

/-- A single part has depth zero. -/
def WireStructure.depth : WireStructure → Nat
  | .basic .. => 0
  | .multipart first rest _ _ => max first.depth (WireStructure.depths rest) + 1

def WireStructure.depths : List WireStructure → Nat
  | [] => 0
  | first :: rest => max first.depth (WireStructure.depths rest)

end

def WireString.escaped : WireString → Bool
  | quoted content => content.bytes.any isQuotedSpecial
  | literal _ => false

mutual

/-- Some parameter has both its name and its value in quotes with an escape. -/
def WireStructure.aliased : WireStructure → Bool
  | .basic _ _ params .. => params.pairs.any fun (name, value) => name.escaped && value.escaped
  | .multipart first rest _ _ => first.aliased || WireStructure.anyAliased rest

def WireStructure.anyAliased : List WireStructure → Bool
  | [] => false
  | first :: rest => first.aliased || WireStructure.anyAliased rest

end

mutual

/-- Some extension tail has an atom that begins with a tilde. -/
def WireStructure.tilde : WireStructure → Bool
  | .basic _ _ _ _ _ _ _ _ tail => TailDatum.tildes tail
  | .multipart first rest _ tail => first.tilde || WireStructure.tildes rest || TailDatum.tildes tail

def WireStructure.tildes : List WireStructure → Bool
  | [] => false
  | first :: rest => first.tilde || WireStructure.tildes rest

end

namespace Phrase

theorem text_sequence (first : Phrase) (rest : List Phrase) :
    (sequence first rest).text = first.text ++ rest.flatMap (byte ' ' :: ·.text) := by
  induction rest generalizing first with
  | nil => simp [sequence]
  | cons next rest ih => rw [sequence, text_spaced, ih, List.flatMap_cons, List.cons_append]

theorem fits_sequence (first : Phrase) (rest : List Phrase) :
    (sequence first rest).Fits ↔ ∀ phrase ∈ first :: rest, phrase.Fits := by
  induction rest generalizing first with
  | nil => simp [sequence]
  | cons next rest ih => simp only [sequence, fits_spaced, ih, List.forall_mem_cons]

theorem fits_list (members : List Phrase) : (list members).Fits ↔ ∀ phrase ∈ members, phrase.Fits := by
  cases members with
  | nil => simp [list]
  | cons first rest => rw [list, fits_group, fits_sequence]

theorem value_head {phrase : Phrase} (values : phrase.Values) (single : phrase.Single) (rest : Bytes) :
    ∃ c tail, phrase.text ++ rest = c :: tail ∧ c ≠ byte ' ' ∧ c ≠ byte ')' := by
  cases phrase with
  | word line =>
    obtain ⟨c, tail, shape, noSpace, noClosing⟩ := ValueWord.head values
    exact ⟨c, tail ++ rest, by rw [text_word, shape, List.cons_append], noSpace, noClosing⟩
  | literal octets => exact ⟨byte '\x7b', _, by rw [text_literal]; rfl, by decide, by decide⟩
  | unit => exact ⟨byte '(', _, rfl, by decide, by decide⟩
  | group inner => exact ⟨byte '(', _, by rw [text_group]; rfl, by decide, by decide⟩
  | spaced | adjoined | suffixed => cases single

end Phrase

mutual

theorem TailDatum.marked : ∀ datum : TailDatum, datum.expression.phrase.marked = datum.tilde
  | .nil spelling => (NString.nil spelling).plain.unmarked
  | .number n => (number_plain n).unmarked
  | .atom name => by
    obtain ⟨c, tail, shape⟩ := List.exists_cons_of_ne_nil name.nonempty
    have noSlash : c ≠ byte '\\' := ne_of_holds (name.atoms c (shape ▸ List.mem_cons_self)) rfl
    simp only [expression, SExpression.phrase, Phrase.marked, markedWord, tilde, shape, List.head?_cons]
    simp [noSlash]
  | .string value => value.plain.unmarked
  | .list members => by
    rw [expression, SExpression.phrase, Phrase.marked_list, TailDatum.marked_members members, tilde]

theorem TailDatum.marked_members : ∀ members : List TailDatum,
    (SExpression.phrases (TailDatum.expressions members)).any Phrase.marked = TailDatum.tildes members
  | [] => rfl
  | first :: rest => by
    rw [expressions, SExpression.phrases, List.any_cons, first.marked,
      TailDatum.marked_members rest, tildes]

end

theorem TailDatum.value_single (datum : TailDatum) : datum.phrase.Values ∧ datum.phrase.Single :=
  datum.expression.values

theorem delimited_tail (tail : List TailDatum) (rest : Bytes) :
    Delimited (tail.flatMap (byte ' ' :: ·.phrase.text) ++ byte ')' :: rest) := by
  cases tail with
  | nil => exact .closing rest
  | cons first others => exact .space _

/-- The extension tail is skipped to its closing parenthesis, unless an atom of it begins with a
    tilde. -/
theorem skipTail_text (tail : List TailDatum) (fits : ∀ datum ∈ tail, datum.phrase.Fits) {fuel : Nat}
    (enough : tail.length < fuel) (rest : Bytes) :
    skipTail fuel (skipSpaces (tail.flatMap (byte ' ' :: ·.phrase.text) ++ byte ')' :: rest)) =
      if TailDatum.tildes tail then none else some rest := by
  induction tail generalizing fuel with
  | nil =>
    obtain ⟨fuel, rfl⟩ := Nat.exists_eq_succ_of_ne_zero (Nat.ne_zero_of_lt enough)
    rfl
  | cons first others ih =>
    obtain ⟨fuel, rfl⟩ := Nat.exists_eq_succ_of_ne_zero (Nat.ne_zero_of_lt enough)
    obtain ⟨fitsFirst, fitsOthers⟩ := List.forall_mem_cons.mp fits
    have behind := delimited_tail others rest
    have after := ih fitsOthers (Nat.lt_of_succ_lt_succ enough)
    rw [List.flatMap_cons, List.cons_append, List.cons_append, List.append_assoc]
    generalize others.flatMap (byte ' ' :: ·.phrase.text) ++ byte ')' :: rest = text at behind after
    obtain ⟨values, single⟩ := first.value_single
    obtain ⟨c, more, shape, noSpace, noClosing⟩ := Phrase.value_head values single text
    have skip := Phrase.skipValue_value values single fitsFirst behind
    have ahead : Stops (· == byte ' ') (first.phrase.text ++ text) :=
      shape ▸ .cons (by simpa using noSpace) more
    have goes : ((first.phrase.text ++ text).isEmpty || (first.phrase.text ++ text).head? ==
        some (byte ')')) = false := by
      simp [shape, noClosing]
    have marked : first.phrase.marked = first.tilde := first.marked
    rw [skipSpaces_space ahead, skipTail, if_neg (goes ▸ Bool.false_ne_true), skip, marked,
      TailDatum.tildes]
    cases first.tilde with
    | true => rfl
    | false => simpa using after

theorem WireString.noSpace (value : WireString) (rest : Bytes) :
    Stops (· == byte ' ') (value.phrase.text ++ rest) := by
  obtain ⟨c, text, shape, first⟩ := value.head rest
  rw [shape]
  rcases first with rfl | rfl <;> exact .cons (by decide) text

theorem WireString.readAstring (value : WireString) (fits : value.phrase.Fits) (rest : Bytes) :
    Cursor.readAstring (value.phrase.text ++ rest) = (some value.value, rest) := by
  obtain ⟨c, text, shape, first⟩ := value.head rest
  have read := value.read fits rest
  rw [shape] at read ⊢
  rw [Cursor.readAstring, if_pos (by rcases first with rfl | rfl <;> rfl), read]

theorem succeeded_some {α : Type} (value : α) (rest : Bytes) :
    succeeded (some value, rest) = some (value, rest) := rfl

theorem WireString.readAstring_next (value : WireString) (fits : value.phrase.Fits) (rest : Bytes) :
    succeeded (Cursor.readAstring (skipSpaces (byte ' ' :: (value.phrase.text ++ rest)))) =
    some (value.value, rest) := by
  rw [skipSpaces_space (value.noSpace rest), value.readAstring fits]
  rfl

theorem readNumber_next {n : Nat} (fits : n < 2 ^ 64) {rest : Bytes} (stops : Stops isDigit rest) :
    succeeded (readNumber (skipSpaces (byte ' ' :: ((numberPhrase n).text ++ rest)))) =
    some (n, rest) := by
  obtain ⟨c, tail, shape⟩ := List.exists_cons_of_ne_nil (decimal_ne_nil n)
  have digit := decimal_digits n c (shape ▸ List.mem_cons_self)
  have noSpace : Stops (· == byte ' ') (decimal n ++ rest) := by
    rw [shape]
    exact .cons (by simpa using (ne_of_holds digit rfl : c ≠ byte ' ')) _
  have text : (numberPhrase n).text = decimal n := Phrase.text_word _
  rw [text, skipSpaces_space noSpace, readNumber_decimal fits stops]
  rfl

theorem length_escaped (content : Bytes) :
    (appendQuoted content).length = content.length + 2 + (content.filter isQuotedSpecial).length := by
  induction content with
  | nil => rfl
  | cons c content ih =>
    rw [appendQuoted, List.length_append, List.length_cons] at ih ⊢
    rw [List.flatMap_cons, List.length_append, List.filter_cons, List.length_cons]
    by_cases special : (c == byte '"' || c == byte '\\') = true
    · have same : isQuotedSpecial c = true := special
      rw [if_pos special, if_pos same]
      simp only [List.length_cons, List.length_nil] at ih ⊢
      omega
    · have same : ¬isQuotedSpecial c = true := special
      rw [if_neg special, if_neg same]
      simp only [List.length_cons, List.length_nil] at ih ⊢
      omega

/-- An escaped string goes through the scratch buffer, and no other does. -/
theorem throughScratch_text (value : WireString) (rest : Bytes) :
    throughScratch (value.phrase.text ++ rest) value.value rest = value.escaped := by
  cases value with
  | quoted content =>
    have text : (WireString.quoted content).phrase.text = appendQuoted content.bytes :=
      Phrase.text_word _
    have first : (appendQuoted content.bytes ++ rest).head? = some (byte '"') := rfl
    have length := length_escaped content.bytes
    rw [throughScratch, text, first, List.length_append, length, WireString.value, WireString.escaped]
    cases special : content.bytes.any isQuotedSpecial with
    | true =>
      have some : 0 < (content.bytes.filter isQuotedSpecial).length := by
        rw [List.length_filter_pos_iff]
        exact List.any_eq_true.mp special
      simp only [beq_self_eq_true, Bool.true_and, bne_iff_ne]
      omega
    | false =>
      have none : content.bytes.filter isQuotedSpecial = [] := by
        rw [List.filter_eq_nil_iff]
        exact fun c member => by simp [List.any_eq_false.mp special c member]
      simp only [beq_self_eq_true, Bool.true_and, bne_eq_false_iff_eq, none, List.length_nil]
      omega
  | literal octets =>
    have first : ((WireString.literal octets).phrase.text ++ rest).head? = some (byte '\x7b') := by
      rw [WireString.phrase, Phrase.text_literal]
      rfl
    rw [throughScratch, first]
    rfl

section Parameters

variable (stale : Bytes → Bytes → Bytes)

def seenName (name value : WireString) : Bytes :=
  if name.escaped && value.escaped then stale name.value value.value else name.value

def seenParams (pairs : List (WireString × WireString)) : List (Bytes × Bytes) :=
  pairs.map fun (name, value) => (seenName stale name value, value.value)

def paramsText (pairs : List (WireString × WireString)) : Bytes :=
  pairs.flatMap fun (name, value) => byte ' ' :: (name.phrase.text ++ byte ' ' :: value.phrase.text)

theorem readParams_text (pairs : List (WireString × WireString))
    (fits : ∀ pair ∈ pairs, pair.1.phrase.Fits ∧ pair.2.phrase.Fits) {fuel : Nat}
    (enough : pairs.length < fuel)
    (rest : Bytes) : readParams stale fuel (paramsText pairs ++ byte ')' :: rest) =
    some (seenParams stale pairs, rest) := by
  induction pairs generalizing fuel with
  | nil =>
    obtain ⟨fuel, rfl⟩ := Nat.exists_eq_succ_of_ne_zero (Nat.ne_zero_of_lt enough)
    rfl
  | cons first others ih =>
    obtain ⟨fuel, rfl⟩ := Nat.exists_eq_succ_of_ne_zero (Nat.ne_zero_of_lt enough)
    obtain ⟨⟨fitsName, fitsValue⟩, fitsOthers⟩ := List.forall_mem_cons.mp fits
    have after := ih fitsOthers (Nat.lt_of_succ_lt_succ enough)
    obtain ⟨name, value⟩ := first
    have layout :
      paramsText ((name, value) :: others) ++ byte ')' :: rest = byte ' ' :: (name.phrase.text ++
        byte ' ' :: (value.phrase.text ++ (paramsText others ++ byte ')' :: rest))) := by
      simp [paramsText]
    rw [layout]
    generalize paramsText others ++ byte ')' :: rest = text at after
    have aliased := throughScratch_text value text
    have named := throughScratch_text name (byte ' ' :: (value.phrase.text ++ text))
    have noClosing : tryConsume (byte ')') (name.phrase.text ++ byte ' ' ::
        (value.phrase.text ++ text)) = none := by
      obtain ⟨c, tail, shape, quote⟩ := name.head (byte ' ' :: (value.phrase.text ++ text))
      rw [shape]
      rcases quote with rfl | rfl <;> rfl
    rw [readParams, skipSpaces_space (name.noSpace _)]
    simp only [noClosing, name.readAstring fitsName, skipSpaces_space (value.noSpace _),
      value.readAstring fitsValue, named, aliased, succeeded, Option.bind_eq_bind,
      Option.bind_some, after]
    rfl

theorem readParams_space (fuel : Nat) (text : Bytes) :
    readParams stale fuel (byte ' ' :: text) = readParams stale fuel text := by
  have skipped : skipSpaces (byte ' ' :: text) = skipSpaces text := by simp [skipSpaces]
  cases fuel with
  | zero => rfl
  | succ fuel => rw [readParams, readParams, skipped]

theorem params_phrase (first : WireString × WireString) (rest : List (WireString × WireString)) :
    ∃ inner, (WireBodyParams.params first rest).phrase.text = byte '(' :: (inner ++ [byte ')']) ∧
      paramsText (first :: rest) = byte ' ' :: inner := by
  have flattened :
    (rest.flatMap fun (name, value) => [name.phrase, value.phrase]).flatMap (byte ' ' :: ·.text) =
      paramsText rest := by
    rw [List.flatMap_assoc, paramsText]
    exact congrArg (List.flatMap · rest) (funext fun pair => by simp)
  refine ⟨_, by rw [WireBodyParams.phrase, List.flatMap_cons, List.cons_append, Phrase.list,
    Phrase.text_group, Phrase.text_sequence], ?_⟩
  simp only [List.singleton_append, List.flatMap_cons, flattened]
  simp [paramsText]

theorem params_fits {params : WireBodyParams} (fits : params.phrase.Fits) :
    ∀ pair ∈ params.pairs, pair.1.phrase.Fits ∧ pair.2.phrase.Fits := by
  cases params with
  | nil spelling => exact fun pair member => absurd member List.not_mem_nil
  | params first rest =>
    rw [WireBodyParams.phrase, Phrase.fits_list] at fits
    intro pair member
    have inside (phrase : Phrase) (one : phrase ∈ [pair.1.phrase, pair.2.phrase]) : phrase.Fits :=
      fits phrase (List.mem_flatMap.mpr ⟨pair, member, one⟩)
    exact ⟨inside _ (by simp), inside _ (by simp)⟩

theorem params_noSpace (params : WireBodyParams) (rest : Bytes) :
    Stops (· == byte ' ') (params.phrase.text ++ rest) :=
  Phrase.noSpace params.plain.values (by cases params <;> exact True.intro) rest

theorem parseBodyParams_next (params : WireBodyParams) (fits : params.phrase.Fits) {rest : Bytes}
    (stops : Stops isAtomChar rest) :
    parseBodyParams stale (skipSpaces (byte ' ' :: (params.phrase.text ++ rest))) =
      some (seenParams stale params.pairs, rest) := by
  rw [skipSpaces_space (params_noSpace params rest)]
  cases params with
  | nil spelling =>
    obtain ⟨taken, dropped⟩ := nil_take spelling rest
    simp [parseBodyParams, consumeNil, WireBodyParams.phrase, taken, dropped, spelling.spells,
      stops_any stops, WireBodyParams.pairs, seenParams]
  | params first others =>
    obtain ⟨inner, phrase, text⟩ := params_phrase first others
    have noNil (text : Bytes) : consumeNil (byte '(' :: text) = none := rfl
    have enough : (first :: others).length < (inner ++ byte ')' :: rest).length + 1 := by
      have length : (first :: others).length ≤ (paramsText (first :: others)).length :=
        length_le_flatMap _ _
      rw [text] at length
      simp only [List.length_cons, List.length_append] at length ⊢
      omega
    have read := readParams_text stale (first :: others) (params_fits fits) enough rest
    rw [text, List.cons_append, readParams_space] at read
    rw [phrase, List.cons_append, List.append_assoc, List.singleton_append, parseBodyParams, noNil,
      tryConsume_self]
    exact read

mutual

def WireStructure.seen : WireStructure → BodyStructure
  | .basic mediaType subtype params id description encoding octets _ _ =>
    { mediaType := mediaType.value, subtype := subtype.value, parameters := seenParams stale params.pairs
      id := id.bytes, description := description.bytes, encoding := encoding.value, octets }
  | .multipart first rest subtype _ =>
    { mediaType := ascii "multipart", subtype := subtype.value
      parts := WireStructure.seen first :: WireStructure.allSeen rest }

def WireStructure.allSeen : List WireStructure → List BodyStructure
  | [] => []
  | first :: rest => WireStructure.seen first :: WireStructure.allSeen rest

end

theorem readBasic_text {mediaType subtype encoding : WireString} {params : WireBodyParams}
    {id description : NString}
    {octets : Nat} (small : octets < 2 ^ 64) {tail : List TailDatum}
    (fits : (WireStructure.basic mediaType subtype params id description encoding octets small
    tail).inner.Fits)
    (rest : Bytes) : readBasic stale
      ((WireStructure.basic mediaType subtype params id description encoding octets small tail).inner.text ++ byte ')' :: rest) =
        if TailDatum.tildes tail then none
        else some ((WireStructure.basic mediaType subtype params id description encoding octets small tail).seen stale, rest) := by
  rw [WireStructure.inner, Phrase.fits_sequence] at fits
  simp only [List.forall_mem_cons, List.forall_mem_append, List.forall_mem_map] at fits
  obtain ⟨fitsType, ⟨fitsSubtype, fitsParams, fitsId, fitsDescription, fitsEncoding, -⟩,
    fitsTail⟩ := fits
  have space := stops_spaced
  have enough (text : Bytes) :
      tail.length < (tail.flatMap (byte ' ' :: ·.phrase.text) ++ text).length + 1 := by
    have length : tail.length ≤ (tail.flatMap (byte ' ' :: ·.phrase.text)).length :=
      length_le_flatMap _ _
    rw [List.length_append]
    omega
  have skip := skipTail_text tail fitsTail (enough (byte ')' :: rest)) rest
  have digits : Stops isDigit (tail.flatMap (byte ' ' :: ·.phrase.text) ++ byte ')' :: rest) := by
    intro c head
    rcases delimited_tail tail rest c head with rfl | rfl | rfl <;> rfl
  rw [WireStructure.inner, Phrase.text_sequence]
  simp only [List.flatMap_cons, List.cons_append, List.nil_append, List.append_assoc, List.flatMap_map]
  generalize tail.flatMap (byte ' ' :: ·.phrase.text) ++ byte ')' :: rest = text at skip digits
  simp only [readBasic, mediaType.readAstring fitsType, subtype.readAstring_next fitsSubtype,
    parseBodyParams_next stale params fitsParams (space _), id.readNstr_next fitsId (space _),
    description.readNstr_next fitsDescription (space _), encoding.readAstring_next fitsEncoding,
    readNumber_next small digits, succeeded_some, Option.bind_eq_bind, Option.bind_some, skip]
  cases TailDatum.tildes tail <;> rfl

def partsText (bodies : List WireStructure) : Bytes :=
  (WireStructure.inners bodies).flatMap fun inner => byte '(' :: (inner.text ++ [byte ')'])

theorem length_partsText (bodies : List WireStructure) : bodies.length ≤ (partsText bodies).length := by
  induction bodies with
  | nil => exact Nat.zero_le _
  | cons first rest ih =>
    simp only [partsText, WireStructure.inners, List.flatMap_cons, List.length_append,
      List.length_cons] at ih ⊢
    omega

def Reads (calls : Nat) (body : WireStructure) : Prop := ∀ rest : Bytes,
  parseBodyStructureIn stale calls (byte '(' :: (body.inner.text ++ byte ')' :: rest)) =
    if body.tilde then none else some (body.seen stale, rest)

theorem readParts_text {calls : Nat} {text : Bytes} (noSpace : Stops (· == byte ' ') text)
    (noOpening : Stops (· == byte '(') text) (bodies : List WireStructure)
    (all : ∀ body ∈ bodies, Reads stale calls body)
    {fuel : Nat} (enough : bodies.length < fuel) :
    readParts (parseBodyStructureIn stale calls) fuel (skipSpaces (partsText bodies ++ byte ' ' :: text)) =
      if WireStructure.tildes bodies then none else some (WireStructure.allSeen stale bodies, text) := by
  induction bodies generalizing fuel with
  | nil =>
    obtain ⟨fuel, rfl⟩ := Nat.exists_eq_succ_of_ne_zero (Nat.ne_zero_of_lt enough)
    have outside : ¬(text.head? == some (byte '(')) = true := by
      intro opened
      have wrong := noOpening _ (beq_iff_eq.mp opened)
      cases wrong
    have skipped := skipSpaces_space noSpace
    rw [partsText, WireStructure.inners, List.flatMap_nil, List.nil_append, skipped, readParts,
      if_neg outside]
    rfl
  | cons first others ih =>
    obtain ⟨fuel, rfl⟩ := Nat.exists_eq_succ_of_ne_zero (Nat.ne_zero_of_lt enough)
    obtain ⟨read, reads⟩ := List.forall_mem_cons.mp all
    have after := ih reads (Nat.lt_of_succ_lt_succ enough)
    have layout : partsText (first :: others) ++ byte ' ' :: text =
        byte '(' :: (first.inner.text ++ byte ')' :: (partsText others ++ byte ' ' :: text)) := by
      simp [partsText, WireStructure.inners]
    have ahead (rest : Bytes) : Stops (· == byte ' ') (byte '(' :: rest) := .cons (by decide) rest
    rw [layout, skipSpaces_stops (ahead _), readParts, List.head?_cons,
      if_pos (beq_self_eq_true _), read, WireStructure.tildes]
    cases first.tilde with
    | true => rfl
    | false =>
      simp only [Bool.false_eq_true, if_false, Option.bind_eq_bind, Option.bind_some, after,
        Bool.false_or]
      cases WireStructure.tildes others <;> rfl

theorem depth_le {bodies : List WireStructure} {body : WireStructure} (member : body ∈ bodies) :
    body.depth ≤ WireStructure.depths bodies := by
  induction bodies with
  | nil => cases member
  | cons first others ih =>
    rw [WireStructure.depths]
    rcases List.mem_cons.mp member with rfl | member
    · exact Nat.le_max_left _ _
    · exact Nat.le_trans (ih member) (Nat.le_max_right _ _)

theorem inner_mem {bodies : List WireStructure} {body : WireStructure} (member : body ∈ bodies) :
    body.inner ∈ WireStructure.inners bodies := by
  induction bodies with
  | nil => cases member
  | cons first others ih =>
    rw [WireStructure.inners]
    rcases List.mem_cons.mp member with rfl | member
    · exact List.mem_cons_self
    · exact List.mem_cons_of_mem _ (ih member)

mutual

/-- The parser reads a tree of parts that is not too deep, unless an atom in an extension tail
    begins with a tilde. -/
theorem WireStructure.read : ∀ (body : WireStructure) (calls : Nat), body.depth < calls →
    body.inner.Fits → Reads stale calls body
  | .basic mediaType subtype params id description encoding octets small tail, calls, deep,
      fits, rest => by
    obtain ⟨calls, rfl⟩ := Nat.exists_eq_succ_of_ne_zero (Nat.ne_zero_of_lt deep)
    have read := readBasic_text stale small fits rest
    obtain ⟨c, more, shape, quote⟩ :=
      mediaType.head ((([subtype.phrase, params.phrase, id.phrase, description.phrase,
      encoding.phrase, numberPhrase octets] ++ tail.map TailDatum.phrase).flatMap (byte ' ' ::
      ·.text)) ++ byte ')' :: rest)
    have layout :
      (basic mediaType subtype params id description encoding octets small tail).inner.text ++
      byte ')' :: rest =
        c :: more := by
      rw [inner, Phrase.text_sequence, List.append_assoc, shape]
    have first : Stops (· == byte ' ') (c :: more) :=
      .cons (by rcases quote with rfl | rfl <;> rfl) more
    have single :
      ((c :: more).head? == some (byte '(')) = false := by rcases quote with rfl | rfl <;> rfl
    rw [layout] at read ⊢
    rw [parseBodyStructureIn, tilde]
    simp only [tryConsume_self, Option.bind_eq_bind, Option.bind_some, skipSpaces_stops first, single,
      Bool.false_eq_true, if_false, read]
  | .multipart first others subtype tail, calls, deep, fits, rest => by
    obtain ⟨calls, rfl⟩ := Nat.exists_eq_succ_of_ne_zero (Nat.ne_zero_of_lt deep)
    rw [inner, Phrase.fits_sequence] at fits
    simp only [List.forall_mem_cons, List.forall_mem_map, Phrase.fits_groups] at fits
    obtain ⟨⟨fitsFirst, fitsOthers⟩, fitsSubtype, fitsTail⟩ := fits
    have shallow : max first.depth (depths others) < calls := Nat.lt_of_succ_lt_succ deep
    have enough (text : Bytes) :
        tail.length < (tail.flatMap (byte ' ' :: ·.phrase.text) ++ text).length + 1 := by
      have length : tail.length ≤ (tail.flatMap (byte ' ' :: ·.phrase.text)).length :=
        length_le_flatMap _ _
      rw [List.length_append]
      omega
    have skip := skipTail_text tail fitsTail (enough (byte ')' :: rest)) rest
    have layout : (multipart first others subtype tail).inner.text ++ byte ')' :: rest =
      partsText (first :: others) ++ byte ' ' ::
      (subtype.phrase.text ++ (tail.flatMap (byte ' ' :: ·.phrase.text) ++ byte ')' :: rest)) := by
      rw [inner, Phrase.text_sequence, Phrase.text_groups, List.flatMap_cons, partsText, inners]
      simp [List.flatMap_map]
    rw [layout]
    generalize tail.flatMap (byte ' ' :: ·.phrase.text) ++ byte ')' :: rest = text at skip
    have more : (first :: others).length <
        (partsText (first :: others) ++ byte ' ' :: (subtype.phrase.text ++ text)).length + 1 := by
      have length := length_partsText (first :: others)
      rw [List.length_append]
      omega
    obtain ⟨c, behind, shape, quote⟩ := subtype.head text
    have noOpening : Stops (· == byte '(') (subtype.phrase.text ++ text) := by
      rw [shape]
      exact .cons (by rcases quote with rfl | rfl <;> rfl) behind
    obtain ⟨deepFirst, deepOthers⟩ := Nat.max_lt.mp shallow
    have all : ∀ body ∈ first :: others, Reads stale calls body := by
      refine List.forall_mem_cons.mpr ⟨first.read calls deepFirst fitsFirst, fun body member => ?_⟩
      exact read_all others body member calls (Nat.lt_of_le_of_lt (depth_le member) deepOthers)
        (fitsOthers body.inner (inner_mem member))
    have parts := readParts_text stale (subtype.noSpace text) noOpening (first :: others) all more
    obtain ⟨tail', opened⟩ :
      ∃ tail', partsText (first :: others) ++ byte ' ' :: (subtype.phrase.text ++ text) =
        byte '(' :: tail' := ⟨_, rfl⟩
    have ahead : Stops (· == byte ' ') (byte '(' :: tail') := .cons (by decide) tail'
    rw [opened, skipSpaces_stops ahead, tildes] at parts
    rw [opened, parseBodyStructureIn, tilde]
    simp only [tryConsume_self, Option.bind_eq_bind, Option.bind_some, skipSpaces_stops ahead,
      List.head?_cons, beq_self_eq_true, if_true, parts]
    cases first.tilde || tildes others with
    | true => rfl
    | false =>
      simp only [Bool.false_eq_true, if_false, Option.bind_some, subtype.readAstring fitsSubtype,
        succeeded_some, skip, Bool.false_or]
      cases TailDatum.tildes tail <;> rfl

theorem WireStructure.read_all : ∀ bodies : List WireStructure, ∀ body ∈ bodies, ∀ calls : Nat,
    body.depth < calls → body.inner.Fits → Reads stale calls body
  | [] => fun _ member => absurd member List.not_mem_nil
  | first :: others => by
    rw [List.forall_mem_cons]
    exact ⟨first.read, read_all others⟩

end

theorem WireStructure.parse (body : WireStructure) (shallow : body.depth ≤ kMaxBodyStructureDepth)
    (short : body.text.length < 2 ^ 64) (rest : Bytes) : parseBodyStructure stale (body.text ++ rest) =
      if body.tilde then none else some (body.seen stale, rest) := by
  have fits : body.inner.Fits := by
    apply Phrase.fits_of_length
    rw [WireStructure.text, List.length_cons, List.length_append] at short
    omega
  rw [WireStructure.text, List.cons_append, List.append_assoc, List.singleton_append]
  exact body.read stale (kMaxBodyStructureDepth + 1) (Nat.lt_succ_of_le shallow) fits rest

theorem seenParams_unaliased {pairs : List (WireString × WireString)}
    (plain : (pairs.any fun (name, value) => name.escaped && value.escaped) = false) :
    seenParams stale pairs = pairs.map fun (name, value) => (name.value, value.value) := by
  apply List.map_congr_left
  rintro ⟨name, value⟩ member
  have own := List.any_eq_false.mp plain _ member
  simp only [Prod.mk.injEq, and_true]
  exact if_neg own

mutual

theorem WireStructure.seen_unaliased :
    ∀ body : WireStructure, body.aliased = false → body.seen stale = body.value
  | .basic mediaType subtype params id description encoding octets small tail => by
    intro plain
    rw [aliased] at plain
    rw [seen, value, seenParams_unaliased stale plain]
  | .multipart first others subtype tail => by
    intro plain
    rw [aliased, Bool.or_eq_false_iff] at plain
    rw [seen, value, first.seen_unaliased plain.1, allSeen_unaliased others plain.2]

theorem WireStructure.allSeen_unaliased : ∀ bodies : List WireStructure, WireStructure.anyAliased bodies = false →
    WireStructure.allSeen stale bodies = WireStructure.values bodies
  | [] => fun _ => rfl
  | first :: others => by
    intro plain
    rw [anyAliased, Bool.or_eq_false_iff] at plain
    rw [allSeen, values, first.seen_unaliased plain.1, allSeen_unaliased others plain.2]

end

end Parameters

def changed (name _value : Bytes) : Bytes := byte '!' :: name

mutual

theorem WireStructure.unaliased_of_seen : ∀ body : WireStructure, body.seen changed = body.value →
    body.aliased = false
  | .basic mediaType subtype params id description encoding octets small tail => by
    intro same
    rw [seen, value] at same
    have parameters := List.map_inj_left.mp (congrArg BodyStructure.parameters same)
    rw [aliased, List.any_eq_false]
    rintro ⟨name, content⟩ member escaped
    have shown := congrArg Prod.fst (parameters _ member)
    simp only [seenName, if_pos escaped, changed] at shown
    exact List.cons_ne_self _ _ shown
  | .multipart first others subtype tail => by
    intro same
    rw [seen, value] at same
    obtain ⟨head, rest⟩ := List.cons.inj (congrArg BodyStructure.parts same)
    rw [aliased, first.unaliased_of_seen head, anyUnaliased_of_seen others rest]
    rfl

theorem WireStructure.anyUnaliased_of_seen : ∀ bodies : List WireStructure,
    WireStructure.allSeen changed bodies = WireStructure.values bodies →
    WireStructure.anyAliased bodies = false
  | [] => fun _ => rfl
  | first :: others => by
    intro same
    rw [allSeen, values] at same
    obtain ⟨head, rest⟩ := List.cons.inj same
    rw [anyAliased, first.unaliased_of_seen head, anyUnaliased_of_seen others rest]
    rfl

end

/-- A tree of parts is read back, whatever the scratch buffer shows, exactly if no parameter has
    escapes in its name and in its value and no atom in an extension tail begins with a tilde. -/
theorem structure_round_trip_iff (body : WireStructure) (shallow : body.depth ≤ kMaxBodyStructureDepth)
    (short : body.text.length < 2 ^ 64) (rest : Bytes) :
    (∀ stale, parseBodyStructure stale (body.text ++ rest) = some (body.value, rest)) ↔
      body.aliased = false ∧ body.tilde = false := by
  have read (stale : Bytes → Bytes → Bytes) := body.parse stale shallow short rest
  simp only [read]
  constructor
  · intro all
    have shown := all changed
    cases tilde : body.tilde with
    | true =>
      rw [tilde] at shown
      cases shown
    | false =>
      rw [tilde, if_neg Bool.false_ne_true] at shown
      exact ⟨body.unaliased_of_seen (congrArg Prod.fst (Option.some.inj shown)), rfl⟩
  · rintro ⟨plain, unmarked⟩ stale
    rw [unmarked, if_neg Bool.false_ne_true, body.seen_unaliased stale plain]

/-- What a view of a buffer shows once a string has been written into it, with its terminator. -/
def overwritten (name value : Bytes) : Bytes :=
  (value ++ 0 :: name.drop (value.length + 1)).take name.length

def noteStructure (name value : String)
    (plain : (((ascii name).all fun c => c != byte '\r' && c != byte '\n') &&
    (ascii value).all fun c => c != byte '\r' && c != byte '\n') = true) : WireStructure :=
  let quoted (text : String)
    (inside : ((ascii text).all fun c => c != byte '\r' && c != byte '\n') = true) : WireString :=
    .quoted (.ofString text (LineText.inline inside))
  .basic (quoted "text" rfl) (quoted "plain" rfl)
    (.params (quoted name (Bool.and_eq_true_iff.mp plain).1,
    quoted value (Bool.and_eq_true_iff.mp plain).2) [])
    (.nil (.spelled "NIL" nil_inline)) (.nil (.spelled "NIL" nil_inline))
    (quoted "7bit" rfl) 3 (by decide) []

theorem charset_round_trip :
    parseBodyStructure overwritten ((noteStructure "charset" "\"" rfl).text ++ []) =
    some ((noteStructure "charset" "\"" rfl).value, []) :=
  (structure_round_trip_iff _ (by decide) (by decide +kernel) []).mpr ⟨rfl, rfl⟩ overwritten

/-- The name of a parameter is read from the buffer that its value has been written into. -/
theorem escaped_name_overwritten :
    (noteStructure "a\"" "b\"" rfl).text =
    ascii "(\"text\" \"plain\" (\"a\\\"\" \"b\\\"\") NIL NIL \"7bit\" 3)" ∧
      ((parseBodyStructure overwritten (noteStructure "a\"" "b\"" rfl).text).map (·.1.parameters)) =
        some [(ascii "b\"", ascii "b\"")] ∧
      (noteStructure "a\"" "b\"" rfl).value.parameters = [(ascii "a\"", ascii "b\"")] :=
  ⟨by decide +kernel, by decide +kernel, rfl⟩

end Bkmail
