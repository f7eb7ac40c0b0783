import Bkmail.Command.Mailbox
import Bkmail.Response.Shallow
import Bkmail.Response.Strings

namespace Bkmail

structure MailboxEntry where
  name : Bytes := []
  delimiter : Bytes := []
  noSelect : Bool := false
  hasChildren : Bool := false
  hasNoChildren : Bool := false
  deriving DecidableEq, Repr

namespace ListCommand

def parseQuoted : Bytes → Bytes × Bytes
  | [] => ([], [])
  | [c] => if c == byte '"' then ([], []) else ([c], [])
  | c :: d :: rest =>
    if c == byte '"' then ([], d :: rest)
    else if c == byte '\\' then (d :: (parseQuoted rest).1, (parseQuoted rest).2)
    else (c :: (parseQuoted (d :: rest)).1, (parseQuoted (d :: rest)).2)

def parseLiteral (text : Bytes) : Bytes × Bytes :=
  if text.contains (byte '\x7d') then
    let digits := (text.takeWhile (· != byte '\x7d')).takeWhile isDigit
    let behind := (text.dropWhile (· != byte '\x7d')).drop 1
    if digits.isEmpty || !decide (decimalValue digits < 2 ^ 64) then ([], [])
    else
      let octets := if behind.take 2 = crlf then behind.drop 2 else behind
      (octets.take (decimalValue digits), octets.drop (decimalValue digits))
  else ([], [])

def isAtomStop (c : UInt8) : Bool := c == byte ' ' || c == byte '(' || c == byte ')'

def parseAtom (text : Bytes) : Bytes × Bytes :=
  (text.takeWhile (!isAtomStop ·), text.dropWhile (!isAtomStop ·))

def parseString (text : Bytes) : Bytes × Bytes :=
  match text with
  | [] => ([], [])
  | c :: rest =>
    if c == byte '"' then parseQuoted rest
    else if c == byte '\x7b' then parseLiteral rest
    else parseAtom text

def applyRowFlag (entry : MailboxEntry) (attr : Bytes) : MailboxEntry :=
  match attr with
  | [] => entry
  | c :: name =>
    if c == byte '\\' then
      if asciiIequals name (ascii "Noselect") then { entry with noSelect := true }
      else if asciiIequals name (ascii "HasChildren") then { entry with hasChildren := true }
      else if asciiIequals name (ascii "HasNoChildren") then { entry with hasNoChildren := true }
      else entry
    else entry

def applyRowFlags (body : Bytes) (entry : MailboxEntry) : MailboxEntry :=
  (body.splitOn (byte ' ')).foldl applyRowFlag entry

def parseDelimiter (text : Bytes) : Bytes × Bytes :=
  if asciiIequals (text.take 3) (ascii "NIL") then ([], text.drop 3) else parseString text

/-- `parse_row`: a row without its list of attributes is dropped. -/
def parseRow (entries : List MailboxEntry) (text : Bytes) : List MailboxEntry :=
  match text with
  | [] => entries
  | c :: list =>
    if c == byte '(' && list.contains (byte ')') then
      let entry := applyRowFlags (list.takeWhile (· != byte ')')) {}
      let rest := (list.dropWhile (· != byte ')')).drop 1
      let (delimiter, rest) := parseDelimiter (Cursor.skipSpaces rest)
      let (name, _) := parseString (Cursor.skipSpaces rest)
      entries ++ [{ entry with delimiter, name }]
    else entries

def onUntagged (entries : List MailboxEntry) (r : UntaggedResponse) : List MailboxEntry :=
  if r.kind ≠ .list then entries else parseRow entries r.payload

end ListCommand

inductive MailboxText where
  | atom (name : Atom)
  | quoted (name : Bytes)
  | literal (plus : Bool) (name : Bytes)

namespace MailboxText

def name : MailboxText → Bytes
  | atom name => name.bytes
  | quoted name => name
  | literal _ name => name

def text : MailboxText → Bytes
  | atom name => name.bytes
  | quoted name => appendQuoted name
  | literal plus name => Astring.literalMarker plus name.length ++ name

end MailboxText

structure MailboxAttribute where
  system : Bool
  name : AtomText

namespace MailboxAttribute

def text (attr : MailboxAttribute) : Bytes :=
  if attr.system then byte '\\' :: attr.name.bytes else attr.name.bytes

def is (word : String) (attr : MailboxAttribute) : Bool :=
  attr.system && asciiIequals attr.name.bytes (ascii word)

end MailboxAttribute

def WireDelimiter.value : WireDelimiter → Bytes
  | nil _ => []
  | char c _ => [c]

def WireDelimiter.text : WireDelimiter → Bytes
  | nil spelling => spelling.text.bytes
  | char c _ => appendQuoted [c]

/-- A row of the answer to LIST, behind its keyword. -/
structure ListRow where
  attributes : List MailboxAttribute
  delimiter : WireDelimiter
  mailbox : MailboxText

namespace ListRow

def text (row : ListRow) : Bytes :=
  byte '(' :: ([byte ' '].intercalate (row.attributes.map MailboxAttribute.text) ++
    byte ')' :: byte ' ' :: (row.delimiter.text ++ byte ' ' :: row.mailbox.text))

def entry (row : ListRow) : MailboxEntry where
  name := row.mailbox.name
  delimiter := row.delimiter.value
  noSelect := row.attributes.any (·.is "Noselect")
  hasChildren := row.attributes.any (·.is "HasChildren")
  hasNoChildren := row.attributes.any (·.is "HasNoChildren")

end ListRow

def Spaced (rest : Bytes) : Prop := rest = [] ∨ ∃ tail, rest = byte ' ' :: tail

theorem Spaced.stops {rest : Bytes} (spaced : Spaced rest) {run : UInt8 → Bool}
    (outside : run (byte ' ') = false) :
    Stops run rest := by
  rcases spaced with rfl | ⟨tail, rfl⟩
  · exact .nil run
  · exact .cons outside tail

theorem forall_mem_intercalate (property : UInt8 → Prop) {separator : UInt8}
    (between : property separator)
    {words : List Bytes} (inside : ∀ word ∈ words, ∀ c ∈ word, property c) :
    ∀ c ∈ [separator].intercalate words, property c := by
  induction words with
  | nil => exact fun c member => absurd member List.not_mem_nil
  | cons first rest ih =>
    obtain ⟨own, others⟩ := List.forall_mem_cons.mp inside
    cases rest with
    | nil => simpa using own
    | cons next rest =>
      rw [List.intercalate_cons_cons, List.forall_mem_append, List.forall_mem_append,
        List.forall_mem_singleton]
      exact ⟨⟨own, between⟩, ih others⟩

namespace ListCommand

theorem parseQuoted_escaped (name rest : Bytes) :
    parseQuoted (name.flatMap Astring.escape ++ byte '"' :: rest) = (name, rest) := by
  induction name with
  | nil => cases rest <;> rfl
  | cons c name ih =>
    rw [List.flatMap_cons, List.append_assoc]
    by_cases special : (c == byte '"' || c == byte '\\') = true
    · rw [Astring.escape, if_pos special, List.cons_append, List.cons_append, List.nil_append,
        parseQuoted, if_neg (by decide), if_pos (by decide), ih]
    · have plain : c ≠ byte '"' ∧ c ≠ byte '\\' := by simpa using special
      obtain ⟨d, tail, shape⟩ : ∃ d tail, name.flatMap Astring.escape ++ byte '"' :: rest = d :: tail :=
        List.exists_cons_of_ne_nil (by simp)
      rw [shape] at ih
      rw [Astring.escape, if_neg special, List.cons_append, List.nil_append, shape, parseQuoted,
        if_neg (by simpa using plain.1), if_neg (by simpa using plain.2), ih]

theorem marker_scan (plus : Bool) (n : Nat) (rest : Bytes) :
    ∃ front, Astring.literalMarker plus n ++ rest =
    byte '\x7b' :: (front ++ byte '\x7d' :: (crlf ++ rest)) ∧
      (∀ c ∈ front, (c != byte '\x7d') = true) ∧ front.takeWhile isDigit = decimal n := by
  have digits := decimal_digits n
  have brace : ∀ c ∈ decimal n, (c != byte '\x7d') = true := fun c member =>
    bne_iff_ne.mpr (ne_of_holds (digits c member) rfl)
  refine ⟨decimal n ++ (if plus then [byte '+']
    else []), by simp [Astring.literalMarker, crlf, ascii], ?_, ?_⟩
  · intro c member
    rcases List.mem_append.mp member with member | member
    · exact brace c member
    · cases plus with
      | true =>
        rw [List.mem_singleton.mp member]
        rfl
      | false => cases member
  · refine takeWhile_run digits ?_
    cases plus with
    | true => exact .cons (by decide) []
    | false => exact .nil _

theorem parseLiteral_octets (plus : Bool) {octets : Bytes} (fits : octets.length < 2 ^ 64)
    (rest : Bytes) :
    parseString (Astring.literalMarker plus octets.length ++ (octets ++ rest)) = (octets, rest) := by
  obtain ⟨front, layout, inside, digits⟩ := marker_scan plus octets.length (octets ++ rest)
  have closed : Stops (· != byte '\x7d') (byte '\x7d' :: (crlf ++ (octets ++ rest))) :=
    .cons (by decide) _
  have scanned := takeWhile_run inside closed
  have behind := dropWhile_run inside closed
  rw [layout, parseString, if_neg (by decide), if_pos (by decide), parseLiteral, if_pos (by simp),
    scanned, behind, digits]
  have filled :
    (decimal octets.length).isEmpty = false := by simpa using Cursor.decimal_ne_nil octets.length
  have broken : ((crlf ++ (octets ++ rest)).take 2 = crlf) = True := eq_true rfl
  have dropped : (crlf ++ (octets ++ rest)).drop 2 = octets ++ rest := rfl
  simp only [filled, decimalValue_decimal, decide_eq_true fits, Bool.not_true, Bool.or_false,
    Bool.false_eq_true, if_false, List.drop_one, List.tail_cons, broken, if_true, dropped]
  rw [List.take_left' rfl, List.drop_left' rfl]

theorem parseAtom_append {word : Bytes} (inside : ∀ c ∈ word, isAtomStop c = false) {rest : Bytes}
    (spaced : Spaced rest) :
    parseAtom (word ++ rest) = (word, rest) := by
  have all : ∀ c ∈ word, (!isAtomStop c) = true := fun c member => by simp [inside c member]
  have stops : Stops (!isAtomStop ·) rest := spaced.stops rfl
  rw [parseAtom, takeWhile_run all stops, dropWhile_run all stops]

end ListCommand

theorem Atom.head (atom : Atom) (rest : Bytes) :
    ∃ c tail, atom.bytes ++ rest = c :: tail ∧ c ≠ byte '"' ∧ c ≠ byte '\x7b' ∧ c ≠ byte ' ' := by
  obtain ⟨c, tail, shape⟩ := List.exists_cons_of_ne_nil atom.nonempty
  have char : isAstringChar c = true := atom.chars c (shape ▸ List.mem_cons_self)
  refine ⟨c, tail ++ rest, by rw [shape, List.cons_append], ?_, ?_, ?_⟩ <;> exact ne_of_holds char rfl

namespace MailboxText

theorem noSpace (mailbox : MailboxText) (rest : Bytes) :
    Stops (· == byte ' ') (mailbox.text ++ rest) := by
  cases mailbox with
  | atom name =>
    obtain ⟨c, tail, shape, -, -, other⟩ := name.head rest
    rw [text, shape]
    exact .cons (by simpa using other) tail
  | quoted name => exact .cons (by decide) _
  | literal plus name => exact .cons (by decide) _

/-- The scanner of LIST reads the name and stops behind it. -/
theorem parseString (mailbox : MailboxText) (fits : mailbox.name.length < 2 ^ 64) {rest : Bytes}
    (spaced : Spaced rest) :
    ListCommand.parseString (mailbox.text ++ rest) = (mailbox.name, rest) := by
  cases mailbox with
  | atom word =>
    obtain ⟨c, tail, shape, noQuote, noBrace, -⟩ := word.head rest
    have inside : ∀ c ∈ word.bytes, ListCommand.isAtomStop c = false := by
      intro c member
      have char : isAstringChar c = true := word.chars c member
      have space : c ≠ byte ' ' := ne_of_holds char rfl
      have opening : c ≠ byte '(' := ne_of_holds char rfl
      have closing : c ≠ byte ')' := ne_of_holds char rfl
      simp [ListCommand.isAtomStop, space, opening, closing]
    have read := ListCommand.parseAtom_append inside spaced
    rw [text, name]
    rw [shape] at read ⊢
    rw [ListCommand.parseString, if_neg (by simpa using noQuote), if_neg (by simpa using noBrace), read]
  | quoted word =>
    rw [text, name, Astring.appendQuoted_append, ListCommand.parseString, if_pos (by decide),
      ListCommand.parseQuoted_escaped]
  | literal plus octets =>
    rw [text, name, List.append_assoc]
    exact ListCommand.parseLiteral_octets plus fits rest

end MailboxText

namespace ListRow

theorem attribute_words (attr : MailboxAttribute) : byte ' ' ∉ attr.text ∧ byte ')' ∉ attr.text := by
  have inside : ∀ c ∈ attr.text, c = byte '\\' ∨ isAtomChar c = true := by
    intro c member
    rw [MailboxAttribute.text] at member
    split at member
    · rcases List.mem_cons.mp member with rfl | member
      · exact .inl rfl
      · exact .inr (attr.name.atoms c member)
    · exact .inr (attr.name.atoms c member)
  constructor
  · intro member
    rcases inside _ member with wrong | wrong <;> exact absurd wrong (by decide)
  · intro member
    rcases inside _ member with wrong | wrong <;> exact absurd wrong (by decide)

/-- The flags of an entry, as the words so far have set them. -/
theorem applyRowFlag_text (entry : MailboxEntry) (attr : MailboxAttribute) :
    ListCommand.applyRowFlag entry attr.text = { entry with
      noSelect := entry.noSelect || attr.is "Noselect"
      hasChildren := entry.hasChildren || attr.is "HasChildren"
      hasNoChildren := entry.hasNoChildren || attr.is "HasNoChildren" } := by
  rw [MailboxAttribute.text]
  by_cases system : attr.system = true
  · rw [if_pos system, ListCommand.applyRowFlag, if_pos (by decide)]
    simp only [MailboxAttribute.is, system, Bool.true_and]
    by_cases noSelect : asciiIequals attr.name.bytes (ascii "Noselect") = true
    · rw [if_pos noSelect, asciiIequals_congr noSelect (ascii "Noselect"),
        asciiIequals_congr noSelect (ascii "HasChildren"),
        asciiIequals_congr noSelect (ascii "HasNoChildren")]
      simp [show asciiIequals (ascii "Noselect") (ascii "HasChildren") = false from rfl,
        show asciiIequals (ascii "Noselect") (ascii "HasNoChildren") = false from rfl,
        show asciiIequals (ascii "Noselect") (ascii "Noselect") = true from rfl]
    · rw [if_neg noSelect]
      by_cases children : asciiIequals attr.name.bytes (ascii "HasChildren") = true
      · rw [if_pos children, asciiIequals_congr children (ascii "HasNoChildren")]
        simp [noSelect, children, show asciiIequals (ascii "HasChildren") (ascii "HasNoChildren") =
          false from rfl]
      · rw [if_neg children]
        by_cases none : asciiIequals attr.name.bytes (ascii "HasNoChildren") = true
        · simp [noSelect, children, none]
        · simp [noSelect, children, none]
  · have keyword : ListCommand.applyRowFlag entry attr.name.bytes = entry := by
      obtain ⟨c, tail, shape⟩ := List.exists_cons_of_ne_nil attr.name.nonempty
      have noSlash : c ≠ byte '\\' := ne_of_holds (attr.name.atoms c (shape ▸ List.mem_cons_self)) rfl
      rw [shape, ListCommand.applyRowFlag, if_neg (by simpa using noSlash)]
    rw [if_neg system, keyword]
    simp [MailboxAttribute.is, system]

theorem foldl_applyRowFlag (attributes : List MailboxAttribute) (entry : MailboxEntry) :
    (attributes.map MailboxAttribute.text).foldl ListCommand.applyRowFlag entry = { entry with
      noSelect := entry.noSelect || attributes.any (·.is "Noselect")
      hasChildren := entry.hasChildren || attributes.any (·.is "HasChildren")
      hasNoChildren := entry.hasNoChildren || attributes.any (·.is "HasNoChildren") } := by
  induction attributes generalizing entry with
  | nil => simp
  | cons first rest ih =>
    rw [List.map_cons, List.foldl_cons, applyRowFlag_text, ih]
    simp [Bool.or_assoc]

theorem applyRowFlags_text (attributes : List MailboxAttribute) (entry : MailboxEntry) :
    ListCommand.applyRowFlags ([byte ' '].intercalate (attributes.map MailboxAttribute.text)) entry =
      (attributes.map MailboxAttribute.text).foldl ListCommand.applyRowFlag entry := by
  rw [ListCommand.applyRowFlags]
  by_cases none : attributes = []
  · subst none
    rfl
  · rw [List.splitOn_intercalate _ (List.forall_mem_map.mpr fun attr _ =>
      (attribute_words attr).1) (by simpa using none)]

theorem parseDelimiter_text (delimiter : WireDelimiter) (rest : Bytes) :
    ListCommand.parseDelimiter (delimiter.text ++ byte ' ' :: rest) =
    (delimiter.value, byte ' ' :: rest) := by
  cases delimiter with
  | nil spelling =>
    obtain ⟨taken, dropped⟩ := nil_take spelling (byte ' ' :: rest)
    rw [WireDelimiter.text, ListCommand.parseDelimiter, taken, if_pos spelling.spells, dropped]
    rfl
  | char c inside =>
    have read := (MailboxText.quoted [c]).parseString (by simp [MailboxText.name]) (.inr ⟨rest, rfl⟩)
    have noNil :
      asciiIequals ((appendQuoted [c] ++ byte ' ' :: rest).take 3) (ascii "NIL") = false := rfl
    rw [WireDelimiter.text, ListCommand.parseDelimiter, if_neg (by simp [noNil])]
    exact read

theorem delimiter_noSpace (delimiter : WireDelimiter) (rest : Bytes) :
    Stops (· == byte ' ') (delimiter.text ++ rest) := by
  cases delimiter with
  | nil spelling =>
    have stops := (NString.nil spelling).noSpace rest
    rwa [NString.phrase, Phrase.text_word] at stops
  | char c inside => exact .cons (by decide) _

theorem words_unclosed (attributes : List MailboxAttribute) :
    ∀ c ∈ [byte ' '].intercalate (attributes.map MailboxAttribute.text), (c != byte ')') = true := by
  apply forall_mem_intercalate (fun c => (c != byte ')') = true) (by decide)
  intro word member c inside
  obtain ⟨attr, -, rfl⟩ := List.mem_map.mp member
  exact bne_iff_ne.mpr (ne_of_mem_of_not_mem inside (attribute_words attr).2)

/-- A row adds its own entry, and nothing else. -/
theorem list_row_decoded (row : ListRow) (fits : row.mailbox.name.length < 2 ^ 64)
    (entries : List MailboxEntry) :
    ListCommand.parseRow entries row.text = entries ++ [row.entry] := by
  have inside := words_unclosed row.attributes
  have flags := (applyRowFlags_text row.attributes {}).trans (foldl_applyRowFlag row.attributes {})
  have delimiter := parseDelimiter_text row.delimiter row.mailbox.text
  have mailbox := row.mailbox.parseString fits (.inl rfl)
  have ahead := delimiter_noSpace row.delimiter (byte ' ' :: row.mailbox.text)
  have behind := row.mailbox.noSpace []
  rw [List.append_nil] at mailbox behind
  rw [text]
  generalize [byte ' '].intercalate (row.attributes.map MailboxAttribute.text) = words at inside flags
  generalize tail : row.delimiter.text ++ byte ' ' :: row.mailbox.text = rest at delimiter ahead
  have closed : Stops (· != byte ')') (byte ')' :: byte ' ' :: rest) := .cons (by decide) _
  have listed :
    (byte '(' == byte '(' && (words ++ byte ')' :: byte ' ' :: rest).contains (byte ')')) =
    true := by simp
  rw [ListCommand.parseRow, if_pos listed]
  simp only [takeWhile_run inside closed, dropWhile_run inside closed, List.drop_one, List.tail_cons,
    Cursor.skipSpaces_space ahead, delimiter, Cursor.skipSpaces_space behind, mailbox, flags,
    Bool.false_or]
  rfl

/-- The row `(\HasNoChildren) "/" INBOX`. -/
theorem inbox_row_decoded : ListCommand.parseRow [] (ascii "(\\HasNoChildren) \"/\" INBOX") =
    [{ name := ascii "INBOX", delimiter := ascii "/", hasNoChildren := true }] :=
  list_row_decoded ⟨[⟨true, ⟨ascii "HasNoChildren", by decide, List.all_eq_true.mp rfl⟩⟩],
    .char (byte '/') (by decide), .atom ⟨ascii "INBOX", by decide, List.all_eq_true.mp rfl⟩⟩
    (by simp [MailboxText.name, ascii]) []

end ListRow
end Bkmail
