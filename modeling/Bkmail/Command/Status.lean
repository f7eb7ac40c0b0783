import Bkmail.Command.List
import Bkmail.Command.Snapshot

namespace Bkmail

/-- An item of a STATUS row and its value. The value of an item that is not known may be any
    atom. -/
inductive StatusPair where
  | known (item : StatusItem) (name : Keyword item.name) (value : Nat) (fits : value < 2 ^ 32)
  | unknown (name value : AtomText)
      (other : ∀ item : StatusItem, asciiIequals name.bytes (ascii item.name) = false)

namespace StatusPair

def item? : StatusPair → Option StatusItem
  | known item _ _ _ => some item
  | unknown _ _ _ => none

def name : StatusPair → Bytes
  | known _ name _ _ => name.text.bytes
  | unknown name _ _ => name.bytes

def number : StatusPair → Bytes
  | known _ _ value _ => decimal value
  | unknown _ value _ => value.bytes

def words (pair : StatusPair) : List Bytes := [pair.name, pair.number]

def value? (item : StatusItem) : StatusPair → Option Nat
  | known named _ value _ => if named = item then some value else none
  | unknown _ _ _ => none

end StatusPair

structure StatusRow where
  mailbox : MailboxText
  pairs : List StatusPair

def StatusRow.text (row : StatusRow) : Bytes :=
  row.mailbox.text ++ byte ' ' :: byte '(' ::
    ([byte ' '].intercalate (row.pairs.flatMap StatusPair.words) ++ [byte ')'])

theorem StatusItem.name_atoms (item : StatusItem) : ∀ c ∈ ascii item.name, isAtomChar c = true := by
  cases item <;> exact List.all_eq_true.mp rfl

theorem StatusPair.words_atoms (pair : StatusPair) :
    ∀ word ∈ pair.words, ∀ c ∈ word, isAtomChar c = true := by
  cases pair with
  | known item name value fits =>
    intro word member
    rcases List.mem_pair.mp member with rfl | rfl
    · exact name.atoms item.name_atoms
    · exact fun c member => digit_atomChar c (decimal_digits value c member)
  | unknown name value other =>
    intro word member
    rcases List.mem_pair.mp member with rfl | rfl
    · exact name.atoms
    · exact value.atoms

namespace StatusCommand

theorem skipQuoted_escaped (name rest : Bytes) :
    skipQuoted (name.flatMap Astring.escape ++ byte '"' :: rest) = rest := by
  induction name with
  | nil => cases rest <;> rfl
  | cons c name ih =>
    rw [List.flatMap_cons, List.append_assoc]
    by_cases special : (c == byte '"' || c == byte '\\') = true
    · rw [Astring.escape, if_pos special, List.cons_append, List.cons_append,
        List.nil_append, skipQuoted, if_neg (by decide), if_pos (by decide), ih]
    · have plain : c ≠ byte '"' ∧ c ≠ byte '\\' := by simpa using special
      obtain ⟨d, tail, shape⟩ : ∃ d tail, name.flatMap Astring.escape ++ byte '"' :: rest = d :: tail :=
        List.exists_cons_of_ne_nil (by simp)
      rw [shape] at ih
      rw [Astring.escape, if_neg special, List.cons_append, List.nil_append, shape, skipQuoted,
        if_neg (by simpa using plain.1), if_neg (by simpa using plain.2), ih]

theorem skipLiteral_octets (plus : Bool) {octets : Bytes} (fits : octets.length < 2 ^ 64)
    (rest : Bytes) :
    skipString (Astring.literalMarker plus octets.length ++ (octets ++ rest)) = rest := by
  obtain ⟨front, layout, inside, digits⟩ := ListCommand.marker_scan plus octets.length (octets ++ rest)
  have closed : Stops (· != byte '\x7d') (byte '\x7d' :: (crlf ++ (octets ++ rest))) :=
    .cons (by decide) _
  have scanned := takeWhile_run inside closed
  have behind := dropWhile_run inside closed
  have filled :
    (decimal octets.length).isEmpty = false := by simpa using Cursor.decimal_ne_nil octets.length
  have broken : ((crlf ++ (octets ++ rest)).take 2 = crlf) = True := eq_true rfl
  have dropped : (crlf ++ (octets ++ rest)).drop 2 = octets ++ rest := rfl
  rw [layout, skipString, if_neg (by decide), if_pos (by decide), skipLiteral, if_pos (by simp),
    scanned, behind, digits]
  simp only [filled, decimalValue_decimal, decide_eq_true fits, Bool.not_true, Bool.or_false,
    Bool.false_eq_true, if_false, List.drop_one, List.tail_cons, broken, if_true, dropped]
  rw [List.drop_left' rfl]

/-- The scanner of STATUS stops behind the name. -/
theorem skipString_text (mailbox : MailboxText) (fits : mailbox.name.length < 2 ^ 64) (rest : Bytes) :
    skipString (mailbox.text ++ byte ' ' :: rest) = byte ' ' :: rest := by
  cases mailbox with
  | atom word =>
    obtain ⟨c, tail, shape, noQuote, noBrace, -⟩ := word.head (byte ' ' :: rest)
    have inside : ∀ c ∈ word.bytes, (c != byte ' ' && c != byte '(') = true := by
      intro c member
      have char : isAstringChar c = true := word.chars c member
      have space : c ≠ byte ' ' := ne_of_holds char rfl
      have opening : c ≠ byte '(' := ne_of_holds char rfl
      simp [space, opening]
    have stops : Stops (fun c => c != byte ' ' && c != byte '(') (byte ' ' :: rest) :=
      .cons (by decide) rest
    have skipped := dropWhile_run inside stops
    rw [MailboxText.text]
    rw [shape] at skipped ⊢
    rw [skipString, if_neg (by simpa using noQuote), if_neg (by simpa using noBrace)]
    exact skipped
  | quoted word =>
    rw [MailboxText.text, Astring.appendQuoted_append, skipString, if_pos (by decide),
      skipQuoted_escaped]
  | literal plus octets =>
    rw [MailboxText.text, List.append_assoc]
    exact skipLiteral_octets plus fits _

theorem pairs_words (row : List StatusPair) :
    pairs (row.flatMap StatusPair.words) = row.map fun pair => (pair.name, pair.number) := by
  induction row with
  | nil => rfl
  | cons first rest ih =>
    rw [List.flatMap_cons, List.map_cons, ← ih]
    rfl

theorem fromChars32_decimal {value : Nat} (fits : value < 2 ^ 32) :
    fromChars32 (decimal value) = some value := by
  have whole := takeWhile_run (decimal_digits value) (Stops.nil isDigit)
  rw [List.append_nil] at whole
  have filled : (decimal value).isEmpty = false := by simpa using Cursor.decimal_ne_nil value
  rw [fromChars32, whole, decimalValue_decimal, filled, if_neg Bool.false_ne_true, if_pos fits]

theorem applyPair_unknown {name : Bytes}
    (other : ∀ item : StatusItem, asciiIequals name (ascii item.name) = false)
    (status : MailboxStatus) (number : Bytes) : applyPair status name number = status := by
  have messages : asciiIequals name (ascii "MESSAGES") = false := other .messages
  have recent : asciiIequals name (ascii "RECENT") = false := other .recent
  have uidNext : asciiIequals name (ascii "UIDNEXT") = false := other .uidNext
  have uidValidity : asciiIequals name (ascii "UIDVALIDITY") = false := other .uidValidity
  have unseen : asciiIequals name (ascii "UNSEEN") = false := other .unseen
  rw [applyPair]
  cases fromChars32 number with
  | none => rfl
  | some value => simp [messages, recent, uidNext, uidValidity, unseen]

theorem applyPair_known {item : StatusItem} (name : Keyword item.name) {value : Nat}
    (fits : value < 2 ^ 32)
    (status : MailboxStatus) (wanted : StatusItem) :
    (applyPair status name.text.bytes (decimal value)).get wanted =
      if item = wanted then some value else status.get wanted := by
  rw [applyPair, fromChars32_decimal fits]
  simp only [name.iequals]
  cases item <;> cases wanted <;> rfl

theorem applyPair_value (status : MailboxStatus) (pair : StatusPair) (item : StatusItem) :
    (applyPair status pair.name pair.number).get item = (pair.value? item).or (status.get item) := by
  cases pair with
  | known named name value fits =>
    rw [StatusPair.name, StatusPair.number, applyPair_known name fits, StatusPair.value?]
    split <;> rfl
  | unknown name value other =>
    rw [StatusPair.name, applyPair_unknown other]
    rfl

/-- An item that a row names once keeps the value it has there. -/
theorem foldl_applyPair (row : List StatusPair) (distinct : (row.filterMap StatusPair.item?).Nodup)
    (status : MailboxStatus) (item : StatusItem) :
    (row.foldl (fun status pair => applyPair status pair.name pair.number) status).get item =
      (row.findSome? (·.value? item)).or (status.get item) := by
  induction row generalizing status with
  | nil => rfl
  | cons first rest ih =>
    have others : (rest.filterMap StatusPair.item?).Nodup :=
      distinct.sublist ((List.sublist_cons_self _ _).filterMap _)
    rw [List.foldl_cons, ih others, applyPair_value, List.findSome?_cons]
    cases found : first.value? item with
    | none => rfl
    | some value =>
      have absent : rest.findSome? (·.value? item) = none := by
        rw [List.findSome?_eq_none_iff]
        intro pair member
        cases first with
        | unknown => cases found
        | known named name fst fits =>
          cases pair with
          | unknown => rfl
          | known again name' snd fits' =>
            rw [StatusPair.value?] at found ⊢
            split at found
            · next same =>
              refine if_neg fun also => ?_
              have fresh := (List.nodup_cons.mp distinct).1
              refine fresh (List.mem_filterMap.mpr ⟨_, member, ?_⟩)
              rw [StatusPair.item?, also, same]
            · cases found
      rw [absent]
      rfl

theorem words_unclosed (row : List StatusPair) :
    ∀ c ∈ [byte ' '].intercalate (row.flatMap StatusPair.words), (c != byte ')') = true := by
  apply forall_mem_intercalate (fun c => (c != byte ')') = true) (by decide)
  intro word member c inside
  obtain ⟨pair, -, member⟩ := List.mem_flatMap.mp member
  exact bne_iff_ne.mpr (ne_of_holds (pair.words_atoms word member c inside) rfl)

theorem splitOn_words (row : List StatusPair) :
    pairs (([byte ' '].intercalate (row.flatMap StatusPair.words)).splitOn (byte ' ')) =
    row.map fun pair => (pair.name, pair.number) := by
  rw [← pairs_words]
  by_cases none : row.flatMap StatusPair.words = []
  · rw [none]
    rfl
  · rw [List.splitOn_intercalate _ _ none]
    intro word member space
    obtain ⟨pair, -, member⟩ := List.mem_flatMap.mp member
    exact ne_of_holds (pair.words_atoms word member _ space) rfl rfl

/-- A row leaves the values of its items, whatever was known of the mailbox before. -/
theorem status_row_decoded (row : StatusRow) (fits : row.mailbox.name.length < 2 ^ 64)
    (distinct : (row.pairs.filterMap StatusPair.item?).Nodup) (status : MailboxStatus)
    (item : StatusItem) :
    (parseRow status row.text).get item = row.pairs.findSome? (·.value? item) := by
  have inside := words_unclosed row.pairs
  have words := splitOn_words row.pairs
  have values := foldl_applyPair row.pairs distinct {} item
  have empty : ({} : MailboxStatus).get item = none := by cases item <;> rfl
  have skipped := skipString_text row.mailbox fits
    (byte '(' :: ([byte ' '].intercalate (row.pairs.flatMap StatusPair.words) ++ [byte ')']))
  have opened (text : Bytes) : Stops (· == byte ' ') (byte '(' :: text) := .cons (by decide) text
  have closed : Stops (· != byte ')') [byte ')'] := .cons (by decide) []
  rw [parseRow, rowWords, StatusRow.text, skipped, Cursor.skipSpaces_space (opened _)]
  simp only [beq_self_eq_true, Bool.true_and, List.contains_eq_mem, List.mem_append,
    List.mem_singleton, or_true, decide_true, if_true, takeWhile_run inside closed, words,
    List.foldl_map, values, empty, Option.or_none]

/-- The row `INBOX (MESSAGES 3 X-SIZE 9 unseen 1)`. -/
theorem inbox_status_decoded :
    (parseRow { recent := some 7 } (ascii "INBOX (MESSAGES 3 X-SIZE 9 unseen 1)")).get .unseen =
    some 1 :=
  status_row_decoded ⟨.atom ⟨ascii "INBOX", by decide, List.all_eq_true.mp rfl⟩,
    [.known .messages (.spelled "MESSAGES" rfl) 3 (by decide),
      .unknown ⟨ascii "X-SIZE", by decide, List.all_eq_true.mp rfl⟩
      ⟨ascii "9", by decide, List.all_eq_true.mp rfl⟩
        (by intro item; cases item <;> rfl),
      .known .unseen ⟨.ofString "unseen" (LineText.inline rfl), rfl⟩ 1 (by decide)]⟩
    (by simp [MailboxText.name, ascii]) (by decide) { recent := some 7 } .unseen

end StatusCommand
end Bkmail
