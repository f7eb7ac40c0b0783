import Bkmail.Command.Message
import Bkmail.Command.Injection
import Bkmail.Command.Snapshot
import Bkmail.Command.SequenceSet
import Bkmail.Command.SearchCriteria
import Bkmail.Response.Shallow

namespace Bkmail

/-! The command line as RFC 3501 has it, read the way a server reads it. -/

inductive Verb where
  | capability | noop | logout | starttls | authenticate | login
  | select | examine | create | delete | rename | subscribe | unsubscribe | list | status | append
  | close | expunge | search | fetch | store | copy | move | uid | idle
  deriving DecidableEq, Repr

namespace Verb

def name : Verb → String
  | capability => "CAPABILITY"
  | noop => "NOOP"
  | logout => "LOGOUT"
  | starttls => "STARTTLS"
  | authenticate => "AUTHENTICATE"
  | login => "LOGIN"
  | select => "SELECT"
  | examine => "EXAMINE"
  | create => "CREATE"
  | delete => "DELETE"
  | rename => "RENAME"
  | subscribe => "SUBSCRIBE"
  | unsubscribe => "UNSUBSCRIBE"
  | list => "LIST"
  | status => "STATUS"
  | append => "APPEND"
  | close => "CLOSE"
  | expunge => "EXPUNGE"
  | search => "SEARCH"
  | fetch => "FETCH"
  | store => "STORE"
  | copy => "COPY"
  | move => "MOVE"
  | uid => "UID"
  | idle => "IDLE"

def all : List Verb :=
  [capability, noop, logout, starttls, authenticate, login, select, examine, create, delete,
    rename, subscribe, unsubscribe, list, status, append, close, expunge, search, fetch, store,
    copy, move, uid, idle]

def read? (word : Bytes) : Option Verb := all.find? fun verb => asciiIequals word (ascii verb.name)

end Verb

inductive SectionSpec where
  | headerFields (fields : List Bytes)
  | other (text : Bytes)
  deriving DecidableEq, Repr

inductive FetchAttr where
  | item (i : FetchItems.Item)
  | body (spec : SectionSpec) (peek : Bool)
  deriving DecidableEq, Repr

inductive Order where
  | plain (verb : Verb)
  | naming (verb : Verb) (mailboxes : List Bytes)
  | status (mailbox : Bytes) (items : List StatusItem)
  | search (uid : Bool) (criteria : Bytes)
  | fetch (uid : Bool) (set : Bytes) (attributes : List FetchAttr)
  | store (uid : Bool) (set : Bytes) (mode : StoreMode) (flags : List MessageFlag)
  | transfer (uid : Bool) (verb : Verb) (set mailbox : Bytes)
  deriving DecidableEq, Repr

namespace Server

def expect (word text : Bytes) : Option Bytes :=
  if word.isPrefixOf text then some (text.drop word.length) else none

def readWord (run : UInt8 → Bool) (text : Bytes) : Bytes × Bytes :=
  (text.takeWhile run, text.dropWhile run)

def isSetChar (c : UInt8) : Bool := isDigit c || c == byte '*' || c == byte ':' || c == byte ','

def readSet (text : Bytes) : Option (Bytes × Bytes) :=
  let (set, rest) := readWord isSetChar text
  if set.isEmpty then none else some (set, rest)

def readItems {α : Type} (item : Bytes → Option (α × Bytes)) : Nat → Bytes → Option (List α × Bytes)
  | 0, _ => none
  | fuel + 1, text => do
    let (value, text) ← item text
    match expect [byte ' '] text with
    | none => some ([value], text)
    | some text =>
      let (values, text) ← readItems item fuel text
      some (value :: values, text)

def readGroup {α : Type} (item : Bytes → Option (α × Bytes)) (text : Bytes) :
    Option (List α × Bytes) := do
  let text ← expect [byte '('] text
  let (values, text) ← readItems item text.length text
  let text ← expect [byte ')'] text
  some (values, text)

def readNamed {α : Type} (run : UInt8 → Bool) (named : List (α × String)) (text : Bytes) :
    Option (α × Bytes) :=
  let (word, rest) := readWord run text
  (named.find? fun entry => asciiIequals word (ascii entry.2)).map fun entry => (entry.1, rest)

def readStatusItem : Bytes → Option (StatusItem × Bytes) :=
  readNamed isAtomChar ([.messages, .recent, .uidNext, .uidValidity, .unseen].map fun item =>
    (item, item.name))

def readFlag : Bytes → Option (MessageFlag × Bytes) :=
  readNamed (fun c => isAtomChar c || c == byte '\\')
    ([.seen, .answered, .flagged, .deleted, .draft, .recent].map fun flag => (flag, flag.name))

def readFlags (text : Bytes) : Option (List MessageFlag × Bytes) :=
  match expect (ascii "()") text with
  | some text => some ([], text)
  | none => readGroup readFlag text

def readStoreItem (text : Bytes) : Option (StoreMode × Bytes) :=
  readNamed isAtomChar [(StoreMode.add, "+FLAGS"), (.remove, "-FLAGS"), (.replace, "FLAGS")] text

def readSection (text : Bytes) : Option (SectionSpec × Bytes) :=
  match expect (ascii "HEADER.FIELDS ") text with
  | some text => do
    let (fields, text) ← readGroup Astring.read text
    let text ← expect [byte ']'] text
    some (.headerFields fields, text)
  | none => do
    let (word, text) := readWord (fun c => c != byte ']' && c != byte '\r' && c != byte '\n') text
    let text ← expect [byte ']'] text
    some (.other word, text)

def isAttrChar (c : UInt8) : Bool := isAtomChar c && c != byte '['

def readAttr (text : Bytes) : Option (FetchAttr × Bytes) :=
  match expect (ascii "BODY.PEEK[") text with
  | some text => (readSection text).map fun (spec, text) => (.body spec true, text)
  | none =>
    match expect (ascii "BODY[") text with
    | some text => (readSection text).map fun (spec, text) => (.body spec false, text)
    | none =>
      (readNamed isAttrChar [(FetchItems.Item.envelope, "ENVELOPE"),
        (.bodyStructure, "BODYSTRUCTURE"), (.flags, "FLAGS"),
        (.uid, "UID"), (.internalDate, "INTERNALDATE"), (.rfc822Size, "RFC822.SIZE")] text).map
          fun (item, text) => (.item item, text)

def isLineChar (c : UInt8) : Bool := c != byte '\r' && c != byte '\n'

def readMessages (uid : Bool) (verb : Verb) (text : Bytes) : Option (Order × Bytes) := do
  let text ← expect [byte ' '] text
  if verb = .search then
    let (criteria, text) := readWord isLineChar text
    if criteria.isEmpty then none else some (.search uid criteria, text)
  else
    let (set, text) ← readSet text
    let text ← expect [byte ' '] text
    match verb with
    | .fetch => (readGroup readAttr text).map fun (attributes, text) =>
        (.fetch uid set attributes, text)
    | .store => do
      let (mode, text) ← readStoreItem text
      let text ← expect [byte ' '] text
      (readFlags text).map fun (flags, text) => (.store uid set mode flags, text)
    | .copy | .move => (Astring.read text).map fun (mailbox, text) =>
        (.transfer uid verb set mailbox, text)
    | _ => none

def readOrder (verb : Verb) (text : Bytes) : Option (Order × Bytes) :=
  match verb with
  | .capability | .noop | .logout | .starttls | .close | .expunge | .idle => some (.plain verb, text)
  | .select | .examine | .create | .delete | .subscribe | .unsubscribe => do
    let text ← expect [byte ' '] text
    (Astring.readArguments 1 text).map fun (mailboxes, text) => (.naming verb mailboxes, text)
  | .rename | .list => do
    let text ← expect [byte ' '] text
    (Astring.readArguments 2 text).map fun (mailboxes, text) => (.naming verb mailboxes, text)
  | .status => do
    let text ← expect [byte ' '] text
    let (mailbox, text) ← Astring.read text
    let text ← expect [byte ' '] text
    (readGroup readStatusItem text).map fun (items, text) => (.status mailbox items, text)
  | .search | .fetch | .store | .copy | .move => readMessages false verb text
  | .uid => do
    let text ← expect [byte ' '] text
    let (word, text) := readWord isAtomChar text
    let verb ← Verb.read? word
    readMessages true verb text
  | .authenticate | .login | .append => none

def readCommand (text : Bytes) : Option ((Tag × Order) × Bytes) := do
  let (tag, text) := readWord isAstringChar text
  let text ← expect [byte ' '] text
  let (word, text) := readWord isAtomChar text
  let verb ← Verb.read? word
  let (order, text) ← readOrder verb text
  let text ← expect crlf text
  some ((tag, order), text)

def readCommands : Nat → Bytes → Option (List (Tag × Order) × Bytes)
  | 0, text => some ([], text)
  | n + 1, text => do
    let (command, text) ← readCommand text
    let (commands, text) ← readCommands n text
    some (command :: commands, text)

def Closed (text : Bytes) : Prop := ∃ rest, text = byte ' ' :: rest ∨ text = byte ')' :: rest

theorem Closed.stops {run : UInt8 → Bool} {text : Bytes} (closed : Closed text)
    (space : run (byte ' ') = false)
    (paren : run (byte ')') = false) : Stops run text := by
  obtain ⟨rest, rfl | rfl⟩ := closed
  · exact .cons space rest
  · exact .cons paren rest

@[simp] theorem expect_append (word text : Bytes) : expect word (word ++ text) = some text := by
  simp [expect]

@[simp] theorem expect_self (c : UInt8) (text : Bytes) : expect [c] (c :: text) = some text :=
  expect_append [c] text

theorem expect_other {c d : UInt8} (other : c ≠ d) (word text : Bytes) :
    expect (c :: word) (d :: text) = none := by
  simp [expect, List.isPrefixOf, other]

theorem readWord_append {run : UInt8 → Bool} {word rest : Bytes} (all : ∀ c ∈ word, run c = true)
    (stops : Stops run rest) :
    readWord run (word ++ rest) = (word, rest) := by
  rw [readWord, takeWhile_run all stops, dropWhile_run all stops]

section Lists

variable {α : Type} (item : Bytes → Option (α × Bytes)) (text : α → Bytes)

theorem readItems_append {values : List α} (filled : values ≠ [])
    (reads : ∀ value ∈ values, ∀ rest, Closed rest → item (text value ++ rest) = some (value, rest))
    (rest : Bytes)
    (fuel : Nat) (enough : values.length ≤ fuel) :
    readItems item fuel ([byte ' '].intercalate (values.map text) ++ byte ')' :: rest) =
      some (values, byte ')' :: rest) := by
  induction values generalizing fuel with
  | nil => exact absurd rfl filled
  | cons value values ih =>
    obtain ⟨own, others⟩ := List.forall_mem_cons.mp reads
    obtain ⟨fuel, rfl⟩ : ∃ k, fuel = k + 1 :=
      ⟨fuel - 1, by simp only [List.length_cons] at enough; omega⟩
    cases values with
    | nil =>
      have last := own (byte ')' :: rest) ⟨rest, .inr rfl⟩
      simp only [List.map_cons, List.map_nil, List.intercalate_singleton, readItems, last,
        Option.bind_eq_bind, Option.bind_some, expect_other (show byte ' ' ≠ byte ')' by decide)]
    | cons next values =>
      have more := ih (by simp) others fuel (by simp only [List.length_cons] at enough ⊢; omega)
      have first :=
        own (byte ' ' :: ([byte ' '].intercalate ((next :: values).map text) ++ byte ')' :: rest))
        ⟨_, .inl rfl⟩
      rw [List.map_cons, List.map_cons, List.intercalate_cons_cons, ← List.map_cons,
        List.append_assoc, List.append_assoc, List.singleton_append, readItems, first]
      simp only [Option.bind_eq_bind, Option.bind_some, expect_self, more]

theorem length_le_intercalate :
    ∀ words : List Bytes, words.length ≤ ([byte ' '].intercalate words).length + 1
  | [] => by simp
  | [word] => by simp
  | first :: second :: words => by
    have rest := length_le_intercalate (second :: words)
    rw [List.intercalate_cons_cons]
    simp only [List.length_append, List.length_cons, List.length_nil] at rest ⊢
    omega

theorem readGroup_append {values : List α} (filled : values ≠ [])
    (reads : ∀ value ∈ values, ∀ rest, Closed rest → item (text value ++ rest) = some (value, rest))
    (rest : Bytes) :
    readGroup item (byte '(' :: ([byte ' '].intercalate (values.map text) ++ byte ')' :: rest)) =
    some (values, rest) := by
  have enough := length_le_intercalate (values.map text)
  have items := readItems_append item text filled reads rest
    ([byte ' '].intercalate (values.map text) ++ byte ')' :: rest).length (by
      simp only [List.length_map, List.length_append, List.length_cons] at enough ⊢
      omega)
  simp only [readGroup, expect_self, Option.bind_eq_bind, Option.bind_some, items]

theorem readNamed_append {run : UInt8 → Bool} {named : List (α × String)} {value : α} {name : String}
    (all : (ascii name).all run = true)
    (found : named.find? (fun entry => asciiIequals (ascii name) (ascii entry.2)) =
    some (value, name)) {rest : Bytes}
    (stops : Stops run rest) : readNamed run named (ascii name ++ rest) = some (value, rest) := by
  rw [readNamed, readWord_append (List.all_eq_true.mp all) stops]
  simp only [found, Option.map_some]

end Lists

theorem read_renderAstring {value : Bytes} (textual : ∀ c ∈ value, isTextChar c = true) {rest : Bytes}
    (stops : Stops isAstringChar rest) :
    Astring.read (renderAstring value ++ rest) = some (value, rest) := by
  rw [renderAstring]
  split
  · next atom =>
    obtain ⟨filled, chars⟩ := classify_atom.mp atom
    obtain ⟨c, tail, rfl⟩ := List.exists_cons_of_ne_nil filled
    obtain ⟨own, others⟩ := List.forall_mem_cons.mp chars
    have noQuote : c ≠ byte '"' := ne_of_holds own rfl
    have noBrace : c ≠ byte '\x7b' := ne_of_holds own rfl
    rw [List.cons_append, Astring.read, if_neg (by simpa using noQuote),
      if_neg (by simpa using noBrace), if_pos own, takeWhile_run others stops,
      dropWhile_run others stops]
  · have layout : renderQuoted value ++ rest =
      byte '"' :: (value.flatMap Astring.escape ++ byte '"' :: rest) := by
      change byte '"' :: value.flatMap Astring.escape ++ [byte '"'] ++ rest = _
      simp
    rw [layout, Astring.read, if_pos (by decide), Astring.readQuotedChars_escaped,
      if_pos (List.all_eq_true.mpr textual)]

theorem readCommand_append {tag : Tag} (plain : ∀ c ∈ tag, isAstringChar c = true) {verb : Verb}
    {order : Order}
    {arguments rest : Bytes} (stops : Stops isAtomChar (arguments ++ (crlf ++ rest)))
    (reads : readOrder verb (arguments ++ (crlf ++ rest)) = some (order, crlf ++ rest)) :
    readCommand (tag ++ (byte ' ' :: (ascii verb.name ++ arguments) ++ crlf) ++ rest) =
    some ((tag, order), rest) := by
  have tagged := readWord_append plain (Stops.cons (show isAstringChar (byte ' ') = false by decide)
    (ascii verb.name ++ (arguments ++ (crlf ++ rest))))
  have letters :
    ∀ c ∈ ascii verb.name, isAtomChar c = true := by cases verb <;> exact List.all_eq_true.mp rfl
  have known : Verb.read? (ascii verb.name) = some verb := by cases verb <;> decide
  rw [List.append_assoc, List.append_assoc, List.cons_append, List.append_assoc, readCommand, tagged]
  simp only [Option.bind_eq_bind, Option.bind_some, expect_self, readWord_append letters stops,
    known, reads, expect_append]

end Server
end Bkmail
