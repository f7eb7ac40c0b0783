import Bkmail.Command.Server

namespace Bkmail

open Server

/-! All commands that are one line, and what a server makes of the bytes they put on the wire. -/

def FetchItems.Item.name : FetchItems.Item → String
  | .envelope => "ENVELOPE"
  | .bodyStructure => "BODYSTRUCTURE"
  | .flags => "FLAGS"
  | .uid => "UID"
  | .internalDate => "INTERNALDATE"
  | .rfc822Size => "RFC822.SIZE"

namespace SectionSpec

def text : SectionSpec → Bytes
  | headerFields fields =>
      ascii "HEADER.FIELDS (" ++ [byte ' '].intercalate (fields.map renderAstring) ++ ascii ")"
  | other text => text

/-- A list of field names that need no literal, or a text without brackets that begins no such
    list. -/
def Sound : SectionSpec → Prop
  | headerFields fields => fields ≠ [] ∧ ∀ field ∈ fields, ∀ c ∈ field, isTextChar c = true
  | other text =>
      (∀ c ∈ text, c ≠ byte ']' ∧ c ≠ byte '\r' ∧ c ≠ byte '\n') ∧ ¬ ascii "HEADER.FIELDS " <+: text

end SectionSpec

def FetchAttr.text : FetchAttr → Bytes
  | .item i => ascii i.name
  | .body spec peek => ascii (if peek then "BODY.PEEK[" else "BODY[") ++ spec.text ++ ascii "]"

/-- The one-line commands with their arguments. The commands on UIDs are those with `uid`. -/
inductive Directive where
  | capability | noop | logout | starttls | expunge | close
  | create (mailbox : Bytes)
  | delete (mailbox : Bytes)
  | subscribe (mailbox : Bytes)
  | unsubscribe (mailbox : Bytes)
  | select (mailbox : Bytes)
  | examine (mailbox : Bytes)
  | rename (oldName newName : Bytes)
  | list (reference pattern : Bytes)
  | status (mailbox : Bytes) (items : StatusItems)
  | search (uid : Bool) (criteria : Bytes)
  | store (uid : Bool) (set : Bytes) (flags : FlagSet) (mode : StoreMode)
  | copy (uid : Bool) (set mailbox : Bytes)
  | move (uid : Bool) (set mailbox : Bytes)
  | fetch (uid : Bool) (set : Bytes) (bits : UInt32) (sections : List (SectionSpec × Bool))
  | fetchEnvelopes (uid : Bool) (set : Bytes)
  | fetchMessage (uid : Bool) (set : Bytes)
  | fetchHeaders (uid : Bool) (set : Bytes) (fields : List Bytes)
  deriving DecidableEq, Repr

namespace Directive

def fetchItems (bits : UInt32) (sections : List (SectionSpec × Bool)) : FetchItems :=
  ⟨bits, sections.map fun sec => ⟨sec.1.text, sec.2⟩⟩

def command : Directive → LineCommand
  | capability => capabilityCommand
  | noop => noopCommand
  | logout => logoutCommand
  | starttls => starttlsCommand
  | expunge => expungeCommand
  | close => closeCommand
  | create mailbox => createCommand mailbox
  | delete mailbox => deleteCommand mailbox
  | subscribe mailbox => subscribeCommand mailbox
  | unsubscribe mailbox => unsubscribeCommand mailbox
  | select mailbox => selectCommand mailbox
  | examine mailbox => examineCommand mailbox
  | rename oldName newName => renameCommand oldName newName
  | list reference pattern => listCommand reference pattern
  | status mailbox items => statusCommand mailbox items
  | search false criteria => searchCommand criteria
  | search true criteria => uidSearchCommand criteria
  | store false set flags mode => storeCommand set flags mode
  | store true set flags mode => uidStoreCommand set flags mode
  | copy false set mailbox => copyCommand set mailbox
  | copy true set mailbox => uidCopyCommand set mailbox
  | move false set mailbox => moveCommand set mailbox
  | move true set mailbox => uidMoveCommand set mailbox
  | fetch false set bits sections => fetchCommand set (fetchItems bits sections)
  | fetch true set bits sections => uidFetchCommand set (fetchItems bits sections)
  | fetchEnvelopes false set => fetchEnvelopesCommand set
  | fetchEnvelopes true set => uidFetchEnvelopesCommand set
  | fetchMessage false set => fetchMessageCommand set
  | fetchMessage true set => uidFetchMessageCommand set
  | fetchHeaders false set fields => fetchHeadersCommand set fields
  | fetchHeaders true set fields => uidFetchHeadersCommand set fields

def statusItems (items : StatusItems) : List StatusItem :=
  [StatusItem.messages, .recent, .uidNext, .uidValidity, .unseen].filter (hasStatusItem items)

def flags (set : FlagSet) : List MessageFlag :=
  [MessageFlag.seen, .answered, .flagged, .deleted, .draft, .recent].filter set.test

def attributes (bits : UInt32) (sections : List (SectionSpec × Bool)) : List FetchAttr :=
  (([FetchItems.Item.envelope, .bodyStructure, .flags, .uid, .internalDate, .rfc822Size].filter
    (FetchItems.test ⟨bits, []⟩)).map .item) ++ sections.map fun sec => .body sec.1 sec.2

def order : Directive → Order
  | capability => .plain .capability
  | noop => .plain .noop
  | logout => .plain .logout
  | starttls => .plain .starttls
  | expunge => .plain .expunge
  | close => .plain .close
  | create mailbox => .naming .create [mailbox]
  | delete mailbox => .naming .delete [mailbox]
  | subscribe mailbox => .naming .subscribe [mailbox]
  | unsubscribe mailbox => .naming .unsubscribe [mailbox]
  | select mailbox => .naming .select [mailbox]
  | examine mailbox => .naming .examine [mailbox]
  | rename oldName newName => .naming .rename [oldName, newName]
  | list reference pattern => .naming .list [reference, pattern]
  | status mailbox items => .status mailbox (statusItems items)
  | search uid criteria => .search uid criteria
  | store uid set flags mode => .store uid set mode (Directive.flags flags)
  | copy uid set mailbox => .transfer uid .copy set mailbox
  | move uid set mailbox => .transfer uid .move set mailbox
  | fetch uid set bits sections => .fetch uid set (attributes bits sections)
  | fetchEnvelopes uid set => .fetch uid set [.item .envelope]
  | fetchMessage uid set => .fetch uid set [.body (.other []) true]
  | fetchHeaders uid set fields => .fetch uid set [.body (.headerFields fields) true]

/-- The arguments are what the commands are documented to take: sequence sets and criteria that have
    the form the validators accept, names that need no literal, and something to fetch or to ask the
    status of. -/
def Sound : Directive → Prop
  | capability | noop | logout | starttls | expunge | close => True
  | create v | delete v | subscribe v | unsubscribe v | select v | examine v =>
      ∀ c ∈ v, isTextChar c = true
  | rename v w | list v w => ∀ u ∈ [v, w], ∀ c ∈ u, isTextChar c = true
  | status v items => (∀ c ∈ v, isTextChar c = true) ∧ statusItems items ≠ []
  | search _ criteria => SearchCriteria.isValid criteria = true
  | store _ set _ _ | fetchEnvelopes _ set | fetchMessage _ set => SequenceSet.SeqSet set
  | copy _ set v | move _ set v => SequenceSet.SeqSet set ∧ ∀ c ∈ v, isTextChar c = true
  | fetch _ set bits sections =>
    SequenceSet.SeqSet set ∧ attributes bits sections ≠ [] ∧ ∀ sec ∈ sections, sec.1.Sound
  | fetchHeaders _ set fields => SequenceSet.SeqSet set ∧ (SectionSpec.headerFields fields).Sound

end Directive

theorem SequenceSet.SeqNumber.chars {word : Bytes} (number : SequenceSet.SeqNumber word) :
    ∀ c ∈ word, isSetChar c = true := by
  cases number with
  | star => exact List.all_eq_true.mp rfl
  | number _ all =>
    intro c member
    simp [isSetChar, all c member]

theorem SequenceSet.SeqRange.chars {range : Bytes} (own : SequenceSet.SeqRange range) :
    ∀ c ∈ range, isSetChar c = true := by
  cases own with
  | single number => exact number.chars
  | pair left right => exact List.forall_mem_append.mpr ⟨left.chars,
      List.forall_mem_cons.mpr ⟨by decide, right.chars⟩⟩

theorem SequenceSet.SeqSet.chars {set : Bytes} (valid : SequenceSet.SeqSet set) :
    ∀ c ∈ set, isSetChar c = true := by
  induction valid with
  | last own => exact own.chars
  | more own _ others =>
      exact List.forall_mem_append.mpr ⟨own.chars, List.forall_mem_cons.mpr ⟨by decide, others⟩⟩

namespace Server

theorem readSet_append {set rest : Bytes} (valid : SequenceSet.SeqSet set)
    (stops : Stops isSetChar rest) :
    readSet (set ++ rest) = some (set, rest) := by
  have filled : set.isEmpty = false := by simpa using valid.filled
  rw [readSet, readWord_append valid.chars stops]
  simp [filled]

theorem readSection_append {spec : SectionSpec} (sound : spec.Sound) (rest : Bytes) :
    readSection (spec.text ++ byte ']' :: rest) = some (spec, rest) := by
  cases spec with
  | headerFields fields =>
    obtain ⟨filled, textual⟩ := sound
    have group := readGroup_append Astring.read renderAstring filled
      (fun field member rest closed =>
        read_renderAstring (textual field member) (closed.stops (by decide) (by decide)))
      (byte ']' :: rest)
    have layout : (SectionSpec.headerFields fields).text ++ byte ']' :: rest = ascii "HEADER.FIELDS " ++
        (byte '(' ::
        ([byte ' '].intercalate (fields.map renderAstring) ++ byte ')' :: byte ']' :: rest)) := by
      simp [SectionSpec.text, ascii]
    rw [layout, readSection, expect_append]
    simp only [group, Option.bind_eq_bind, Option.bind_some, expect_self]
  | other text =>
    obtain ⟨inside, plain⟩ := sound
    have noList : expect (ascii "HEADER.FIELDS ") (text ++ byte ']' :: rest) = none := by
      refine if_neg fun starts => ?_
      have starts := List.isPrefixOf_iff_prefix.mp starts
      rcases List.prefix_or_prefix_of_prefix starts (List.prefix_append text _)
        with within | ⟨tail, whole⟩
      · exact plain within
      · rw [← whole, List.prefix_append_right_inj] at starts
        cases tail with
        | nil => exact plain (by simp [← whole])
        | cons c tail =>
          have bracket : byte ']' ∈ ascii "HEADER.FIELDS " := by
            rw [← whole, ← (List.cons_prefix_cons.mp starts).1]
            simp
          exact absurd bracket (by decide)
    have word : readWord (fun c =>
      c != byte ']' && c != byte '\r' && c != byte '\n') (text ++ byte ']' :: rest) =
        (text, byte ']' :: rest) :=
      readWord_append (fun c member => by simpa [and_assoc] using inside c member)
        (.cons (by decide) rest)
    simp only [SectionSpec.text, readSection, noList, word, Option.bind_eq_bind, Option.bind_some,
      expect_self]

theorem readAttr_append {attr : FetchAttr}
    (sound : ∀ spec peek, attr = .body spec peek → spec.Sound) (rest : Bytes)
    (closed : Closed rest) : readAttr (attr.text ++ rest) = some (attr, rest) := by
  cases attr with
  | item i =>
    have noPeek : expect (ascii "BODY.PEEK[") (ascii i.name ++ rest) = none := by cases i <;> rfl
    have noBody : expect (ascii "BODY[") (ascii i.name ++ rest) = none := by cases i <;> rfl
    have named : readNamed isAttrChar [(FetchItems.Item.envelope, "ENVELOPE"),
      (.bodyStructure, "BODYSTRUCTURE"), (.flags, "FLAGS"), (.uid, "UID"),
      (.internalDate, "INTERNALDATE"), (.rfc822Size, "RFC822.SIZE")]
          (ascii i.name ++ rest) = some (i, rest) :=
      readNamed_append (by cases i <;> decide) (by cases i <;> decide)
        (closed.stops (by decide) (by decide))
    simp only [FetchAttr.text, readAttr, noPeek, noBody, named, Option.map_some]
  | body spec peek =>
    have sec := readSection_append (sound spec peek rfl) rest
    cases peek with
    | true =>
      have layout : (FetchAttr.body spec true).text ++ rest =
          ascii "BODY.PEEK[" ++ (spec.text ++ byte ']' :: rest) := by
        simp [FetchAttr.text, ascii]
      simp only [layout, readAttr, expect_append, sec, Option.map_some]
    | false =>
      have layout : (FetchAttr.body spec false).text ++ rest =
          ascii "BODY[" ++ (spec.text ++ byte ']' :: rest) := by
        simp [FetchAttr.text, ascii]
      have noPeek :
        expect (ascii "BODY.PEEK[") (ascii "BODY[" ++ (spec.text ++ byte ']' :: rest)) = none := rfl
      simp only [layout, readAttr, noPeek, expect_append, sec, Option.map_some]

theorem filterMap_selected {α : Type} (items : List α) (selected : α → Bool) (text : α → Bytes) :
    (items.filterMap fun item => if selected item then some (text item) else none) =
    (items.filter selected).map text := by
  induction items with
  | nil => rfl
  | cons item items ih =>
    rw [List.filterMap_cons]
    by_cases own : selected item = true
    · simp [own, ih]
    · simp [own, ih]

theorem flatMap_spaced (words : List Bytes) (filled : words ≠ []) :
    words.flatMap (· ++ [byte ' ']) = [byte ' '].intercalate words ++ [byte ' '] := by
  induction words with
  | nil => exact absurd rfl filled
  | cons word words ih =>
    cases words with
    | nil => simp
    | cons next words =>
      rw [List.flatMap_cons, ih (List.cons_ne_nil _ _), List.intercalate_cons_cons]
      simp

end Server

namespace Directive

theorem status_text (items : StatusItems) :
    appendItems items = [byte ' '].intercalate ((statusItems items).map fun item =>
    ascii item.name) := by
  have named := filterMap_selected [StatusItem.messages, .recent, .uidNext, .uidValidity,
    .unseen] (hasStatusItem items)
    fun item => ascii item.name
  rw [statusItems, ← named]
  rfl

theorem flags_text (set : FlagSet) :
    StoreCommand.appendFlagNames set =
    [byte ' '].intercalate ((flags set).map fun flag => ascii flag.name) := by
  have named :=
    filterMap_selected [MessageFlag.seen, .answered, .flagged, .deleted, .draft, .recent] set.test
    fun flag => ascii flag.name
  rw [flags, ← named]
  rfl

/-- The space that ends the list of items is the one that is trimmed. -/
theorem fetch_text {bits : UInt32} {sections : List (SectionSpec × Bool)}
    (filled : attributes bits sections ≠ [])
    (front : Bytes) :
    FetchCommand.trimmed (front ++ FetchCommand.appendItems (fetchItems bits sections)) =
      front ++ [byte ' '].intercalate ((attributes bits sections).map FetchAttr.text) := by
  have named : FetchCommand.itemNames (fetchItems bits sections) =
      (([FetchItems.Item.envelope, .bodyStructure, .flags, .uid, .internalDate, .rfc822Size].filter
        (FetchItems.test ⟨bits, []⟩)).map .item).map fun attr => FetchAttr.text attr ++ [byte ' '] := by
    have selected := filterMap_selected
      [FetchItems.Item.envelope, .bodyStructure, .flags, .uid, .internalDate,
        .rfc822Size] (FetchItems.test ⟨bits, []⟩)
      fun item => ascii item.name ++ [byte ' ']
    rw [List.map_map]
    exact selected
  have bodies : ((fetchItems bits sections).sections.flatMap fun sec =>
      ascii (if sec.peek then "BODY.PEEK[" else "BODY[") ++ sec.specifier ++ ascii "] ") =
        (sections.map fun sec => FetchAttr.body sec.1 sec.2).flatMap fun attr =>
        attr.text ++ [byte ' '] := by
    simp only [fetchItems, List.flatMap_map, FetchAttr.text, List.append_assoc]
    rfl
  have spaced := flatMap_spaced ((attributes bits sections).map FetchAttr.text) (by simpa using filled)
  have layout : FetchCommand.appendItems (fetchItems bits sections) =
      [byte ' '].intercalate ((attributes bits sections).map FetchAttr.text) ++ [byte ' '] := by
    rw [← spaced, FetchCommand.appendItems, named,
      bodies, ← List.flatMap_def, ← List.flatMap_append, List.flatMap_map]
    rfl
  rw [layout, ← List.append_assoc, FetchCommand.trimmed, if_pos List.getLast?_concat,
    List.dropLast_concat]

/-- A text after the tag that a server reads as one command, whatever follows the line. -/
structure Understood (body : Bytes) (order : Order) (rest : Bytes) (verb : Verb)
    (arguments : Bytes) : Prop where
  body : body = byte ' ' :: (ascii verb.name ++ arguments) ++ crlf
  stops : Stops isAtomChar (arguments ++ (crlf ++ rest))
  reads : readOrder verb (arguments ++ (crlf ++ rest)) = some (order, crlf ++ rest)

section Lines

variable {order : Order} {rest : Bytes} {verb : Verb}

theorem crlf_stops {run : UInt8 → Bool} (outside : run (byte '\r') = false) (rest : Bytes) :
    Stops run (crlf ++ rest) :=
  Stops.cons (c := byte '\r') outside _

theorem space_stops {run : UInt8 → Bool} (outside : run (byte ' ') = false) (text rest : Bytes) :
    Stops run (byte ' ' :: text ++ rest) :=
  Stops.cons (c := byte ' ') outside _

theorem plain_understood {body : Bytes} (layout : body = byte ' ' :: (ascii verb.name ++ []) ++ crlf)
    (reads : ∀ text, readOrder verb text = some (.plain verb, text)) (rest : Bytes) :
    Understood body (.plain verb) rest verb [] :=
  ⟨layout, crlf_stops (by decide) rest, reads _⟩

theorem naming_understood {body v : Bytes}
    (layout : body = byte ' ' :: (ascii verb.name ++ byte ' ' :: AppendCommand.appendArg v) ++ crlf)
    (textual : ∀ c ∈ v, isTextChar c = true) (reads : ∀ text, readOrder verb (byte ' ' :: text) =
      (Astring.readArguments 1 text).map fun (mailboxes, text) => (.naming verb mailboxes, text))
      (rest : Bytes) :
    Understood body (.naming verb [v]) rest verb (byte ' ' :: AppendCommand.appendArg v) := by
  refine ⟨layout, space_stops (by decide) _ _, ?_⟩
  have read := Astring.read_appendArg v (crlf_stops (by decide) rest)
  rw [if_pos (List.all_eq_true.mpr textual)] at read
  simp [reads, Astring.readArguments, read]

theorem pair_understood {body v w : Bytes} (layout : body =
      byte ' ' :: (ascii verb.name ++ byte ' ' ::
      (AppendCommand.appendArg v ++ byte ' ' :: AppendCommand.appendArg w)) ++ crlf)
    (textual : ∀ u ∈ [v, w], ∀ c ∈ u, isTextChar c = true)
    (reads : ∀ text, readOrder verb (byte ' ' :: text) =
      (Astring.readArguments 2 text).map fun (mailboxes, text) => (.naming verb mailboxes, text))
      (rest : Bytes) :
    Understood body (.naming verb [v, w]) rest verb
      (byte ' ' :: (AppendCommand.appendArg v ++ byte ' ' :: AppendCommand.appendArg w)) := by
  obtain ⟨left, right⟩ := List.forall_mem_cons.mp textual
  refine ⟨layout, space_stops (by decide) _ _, ?_⟩
  have between : Stops isAstringChar (byte ' ' :: AppendCommand.appendArg w ++ (crlf ++ rest)) :=
    space_stops (by decide) _ _
  have first := Astring.read_appendArg v between
  have second := Astring.read_appendArg w (crlf_stops (by decide) rest)
  rw [if_pos (List.all_eq_true.mpr left)] at first
  rw [if_pos (List.all_eq_true.mpr (right w (List.mem_singleton.mpr rfl)))] at second
  rw [List.cons_append] at first
  simp [reads, Astring.readArguments, first, second]

theorem messages_understood (uid : Bool) (order : Order) (tail rest : Bytes)
    (known : verb = .search ∨ verb = .fetch ∨ verb = .store ∨ verb = .copy ∨ verb = .move)
    (stops : Stops isAtomChar (tail ++ (crlf ++ rest)))
    (reads : readMessages uid verb (tail ++ (crlf ++ rest)) = some (order, crlf ++ rest)) :
    ∃ front arguments,
      Understood (ascii (if uid then " UID " else " ") ++ (ascii verb.name ++ tail ++ crlf)) order
      rest front arguments := by
  cases uid with
  | false =>
    refine ⟨verb, tail, rfl, stops, ?_⟩
    rcases known with rfl | rfl | rfl | rfl | rfl <;> exact reads
  | true =>
    refine ⟨.uid, byte ' ' ::
      (ascii verb.name ++ tail), by simp [Verb.name, ascii], space_stops (by decide) _ _, ?_⟩
    have letters :
      ∀ c ∈ ascii verb.name, isAtomChar c = true := by cases verb <;> exact List.all_eq_true.mp rfl
    have word := readWord_append letters stops
    have found : Verb.read? (ascii verb.name) = some verb := by cases verb <;> decide
    rw [List.cons_append, List.append_assoc]
    simp only [readOrder, expect_self, Option.bind_eq_bind, Option.bind_some, word, found, reads]

theorem set_stops (text : Bytes) : Stops isSetChar (byte ' ' :: text) := .cons (by decide) text

theorem store_understood (uid : Bool) {set : Bytes} (valid : SequenceSet.SeqSet set)
    (chosen : FlagSet) (mode : StoreMode)
    (rest : Bytes) : ∃ front arguments,
      Understood (StoreCommand.line (ascii (if uid then " UID STORE " else " STORE "))
      set chosen mode).body
        (.store uid set mode (flags chosen)) rest front arguments := by
  let list := byte '(' :: (StoreCommand.appendFlagNames chosen ++ [byte ')'])
  have group : readFlags (list ++ (crlf ++ rest)) = some (flags chosen, crlf ++ rest) := by
    have layout :
        list ++ (crlf ++ rest) = byte '(' :: ([byte ' '].intercalate ((flags chosen).map fun flag =>
        ascii flag.name) ++ byte ')' :: (crlf ++ rest)) := by simp [list, flags_text]
    rw [layout]
    generalize flags chosen = selected
    cases selected with
    | nil => rfl
    | cons flag others =>
      have filled :
          expect (ascii "()") (byte '(' :: ([byte ' '].intercalate ((flag :: others).map fun flag =>
          ascii flag.name) ++ byte ')' :: (crlf ++ rest))) = none := by
        cases others <;> cases flag <;> rfl
      rw [readFlags, filled]
      refine readGroup_append readFlag (fun flag => ascii flag.name) (List.cons_ne_nil _ _)
        (fun flag _ rest closed => ?_) (crlf ++ rest)
      exact readNamed_append (by cases flag <;> decide) (by cases flag <;> decide)
        (closed.stops (by decide) (by decide))
  have item (text : Bytes) :
      readStoreItem (mode.item ++ byte ' ' :: text) = some (mode, byte ' ' :: text) := by
    have space : Stops isAtomChar (byte ' ' :: text) := .cons (by decide) text
    cases mode
    · exact @readNamed_append _ _ _ _ "+FLAGS" (by decide) (by decide) _ space
    · exact @readNamed_append _ _ _ _ "-FLAGS" (by decide) (by decide) _ space
    · exact @readNamed_append _ _ _ _ "FLAGS" (by decide) (by decide) _ space
  have understood := messages_understood uid (.store uid set mode (flags chosen))
    (byte ' ' :: (set ++ byte ' ' :: (mode.item ++ byte ' ' :: list))) rest (.inr (.inr (.inl rfl)))
    (space_stops (by decide) _ _) (by
      have behind :=
        readSet_append valid (set_stops (mode.item ++ byte ' ' :: (list ++ (crlf ++ rest))))
      simp only [List.cons_append, List.append_assoc, readMessages, expect_self,
        Option.bind_eq_bind, Option.bind_some, reduceCtorEq, if_false, behind, item, group,
        Option.map_some])
  have layout :
    (StoreCommand.line (ascii (if uid then " UID STORE " else " STORE ")) set chosen mode).body =
      ascii (if uid then " UID " else " ") ++
        (ascii Verb.store.name ++ byte ' ' ::
        (set ++ byte ' ' :: (mode.item ++ byte ' ' :: list)) ++ crlf) := by
    cases uid <;> simp [StoreCommand.line, Verb.name, ascii, crlf, list]
  exact layout ▸ understood

theorem transfer_understood (uid : Bool) {verb : Verb} (known : verb = .copy ∨ verb = .move)
    {set v : Bytes}
    (valid : SequenceSet.SeqSet set) (textual : ∀ c ∈ v, isTextChar c = true) (rest : Bytes) :
    ∃ front arguments,
    Understood (transferLine (ascii (if uid then " UID " else " ") ++
    (ascii verb.name ++ [byte ' '])) set v).body
        (.transfer uid verb set v) rest front arguments := by
  have understood := messages_understood uid (.transfer uid verb set v)
    (byte ' ' :: (set ++ byte ' ' :: renderAstring v)) rest (.inr (.inr (.inr known)))
    (space_stops (by decide) _ _) (by
      have behind := readSet_append valid (set_stops (renderAstring v ++ (crlf ++ rest)))
      have mailbox := read_renderAstring textual (crlf_stops (by decide) rest)
      rcases known with rfl | rfl <;>
        simp only [List.cons_append, List.append_assoc, readMessages, expect_self,
          Option.bind_eq_bind, Option.bind_some, reduceCtorEq, if_false, behind, mailbox,
          Option.map_some])
  simpa [transferLine] using understood

theorem fetch_understood (uid : Bool) {set : Bytes} (valid : SequenceSet.SeqSet set)
    (attributes : List FetchAttr)
    (filled : attributes ≠ []) (sound : ∀ spec peek, .body spec peek ∈ attributes → spec.Sound)
    (rest : Bytes) :
    ∃ front arguments, Understood (fetchLine (ascii (if uid then " UID FETCH " else " FETCH ")) set
      ([byte ' '].intercalate (attributes.map FetchAttr.text))).body (.fetch uid set attributes)
        rest front arguments := by
  let list := byte '(' :: ([byte ' '].intercalate (attributes.map FetchAttr.text) ++ [byte ')'])
  have group : readGroup readAttr (list ++ (crlf ++ rest)) = some (attributes, crlf ++ rest) := by
    have read := readGroup_append readAttr FetchAttr.text filled (fun attr member rest closed =>
      readAttr_append (fun spec peek same => sound spec peek (same ▸ member)) rest closed)
        (crlf ++ rest)
    simpa [list] using read
  have understood := messages_understood uid (.fetch uid set attributes)
    (byte ' ' :: (set ++ byte ' ' :: list)) rest (.inr (.inl rfl)) (space_stops (by decide) _ _) (by
      have behind := readSet_append valid (set_stops (list ++ (crlf ++ rest)))
      simp only [List.cons_append, List.append_assoc, readMessages, expect_self,
        Option.bind_eq_bind, Option.bind_some, reduceCtorEq, if_false, behind, group, Option.map_some])
  have layout : (fetchLine (ascii (if uid then " UID FETCH " else " FETCH ")) set
      ([byte ' '].intercalate (attributes.map FetchAttr.text))).body =
        ascii (if uid then " UID " else " ") ++
        (ascii Verb.fetch.name ++ byte ' ' :: (set ++ byte ' ' :: list) ++ crlf) := by
    cases uid <;> simp [fetchLine, Verb.name, ascii, crlf, list]
  exact layout ▸ understood

theorem search_understood (uid : Bool) {criteria : Bytes}
    (valid : SearchCriteria.isValid criteria = true) (rest : Bytes) :
    ∃ front arguments, Understood (ascii (if uid then " UID " else " ") ++
      (ascii Verb.search.name ++ byte ' ' :: criteria ++ crlf)) (.search uid criteria) rest front
      arguments := by
  refine messages_understood uid _ _ rest (.inl rfl) (space_stops (by decide) _ _) ?_
  rw [SearchCriteria.isValid] at valid
  split at valid
  · cases valid
  · next filled =>
    have inside : ∀ c ∈ criteria, isLineChar c = true := by
      intro c member
      simpa [isLineChar] using SearchCriteria.validLoop_oneLine valid c member
    have word := readWord_append inside (crlf_stops (by decide) rest)
    simp only [List.cons_append, readMessages, expect_self, Option.bind_eq_bind, Option.bind_some,
      if_true, word, if_neg filled]

theorem understood (d : Directive) (sound : d.Sound) (rest : Bytes) :
    ∃ front arguments, Understood d.command.body d.order rest front arguments := by
  cases d with
  | capability => exact ⟨_, _, plain_understood (by decide) (fun _ => rfl) rest⟩
  | noop => exact ⟨_, _, plain_understood (by decide) (fun _ => rfl) rest⟩
  | logout => exact ⟨_, _, plain_understood (by decide) (fun _ => rfl) rest⟩
  | starttls => exact ⟨_, _, plain_understood (by decide) (fun _ => rfl) rest⟩
  | expunge => exact ⟨_, _, plain_understood (by decide) (fun _ => rfl) rest⟩
  | close => exact ⟨_, _, plain_understood (by decide) (fun _ => rfl) rest⟩
  | create v =>
      exact ⟨.create, _, naming_understood (by simp [command, createCommand, Verb.name, ascii])
      sound (fun _ => rfl) rest⟩
  | delete v =>
      exact ⟨.delete, _, naming_understood (by simp [command, deleteCommand, Verb.name, ascii])
      sound (fun _ => rfl) rest⟩
  | subscribe v =>
      exact ⟨.subscribe, _, naming_understood (by simp [command, subscribeCommand, Verb.name,
      ascii]) sound (fun _ => rfl) rest⟩
  | unsubscribe v =>
      exact ⟨.unsubscribe, _, naming_understood (by simp [command, unsubscribeCommand, Verb.name,
      ascii]) sound (fun _ => rfl) rest⟩
  | select v =>
      exact ⟨.select, _, naming_understood (by simp [command, selectCommand, Verb.name, ascii])
      sound (fun _ => rfl) rest⟩
  | examine v =>
      exact ⟨.examine, _, naming_understood (by simp [command, examineCommand, Verb.name, ascii])
      sound (fun _ => rfl) rest⟩
  | rename v w =>
    exact ⟨.rename, _, pair_understood (by simp [command, renameCommand, Verb.name, ascii]) sound
      (fun _ => rfl) rest⟩
  | list v w => exact ⟨.list, _,
      pair_understood (by simp [command, listCommand, Verb.name, ascii]) sound (fun _ => rfl) rest⟩
  | status v items =>
    obtain ⟨textual, filled⟩ := sound
    let group := byte '(' :: (appendItems items ++ [byte ')'])
    have read : readGroup readStatusItem (group ++ (crlf ++ rest)) =
        some (statusItems items, crlf ++ rest) := by
      have named := readGroup_append readStatusItem (fun item => ascii item.name) filled
        (fun item _ rest closed =>
          readNamed_append (by cases item <;> decide) (by cases item <;> decide)
          (closed.stops (by decide) (by decide))) (crlf ++ rest)
      simpa [group, status_text] using named
    have mailbox := Astring.read_appendArg v (space_stops (by decide) group (crlf ++ rest))
    rw [if_pos (List.all_eq_true.mpr textual), List.cons_append] at mailbox
    refine ⟨.status, byte ' ' :: (AppendCommand.appendArg v ++ byte ' ' :: group), ?_,
      space_stops (by decide) _ _, ?_⟩
    · simp [command, statusCommand, Verb.name, ascii, crlf, group]
    · simp only [List.cons_append, List.append_assoc, readOrder, expect_self, Option.bind_eq_bind,
        Option.bind_some, mailbox, read, Option.map_some, order]
  | search uid criteria =>
    obtain ⟨front, arguments, understood⟩ := search_understood uid sound rest
    refine ⟨front, arguments, (?_ : (search uid criteria).command.body = _) ▸ understood⟩
    cases uid <;> simp [command, searchCommand, uidSearchCommand, Verb.name, ascii]
  | store uid set chosen mode =>
    obtain ⟨front, arguments, understood⟩ := store_understood uid sound chosen mode rest
    refine ⟨front, arguments, (?_ : (store uid set chosen mode).command.body = _) ▸ understood⟩
    cases uid <;> simp [command, storeCommand, uidStoreCommand]
  | copy uid set v =>
    obtain ⟨front, arguments, understood⟩ := transfer_understood uid (.inl rfl) sound.1 sound.2 rest
    refine ⟨front, arguments, (?_ : (copy uid set v).command.body = _) ▸ understood⟩
    cases uid <;> simp [command, copyCommand, uidCopyCommand, transferLine, Verb.name, ascii]
  | move uid set v =>
    obtain ⟨front, arguments, understood⟩ := transfer_understood uid (.inr rfl) sound.1 sound.2 rest
    refine ⟨front, arguments, (?_ : (move uid set v).command.body = _) ▸ understood⟩
    cases uid <;> simp [command, moveCommand, uidMoveCommand, transferLine, Verb.name, ascii]
  | fetch uid set bits sections =>
    obtain ⟨valid, filled, sound⟩ := sound
    have specs : ∀ spec peek, FetchAttr.body spec peek ∈ attributes bits sections → spec.Sound := by
      intro spec peek asked
      rcases List.mem_append.mp asked with item | own
      · obtain ⟨i, -, same⟩ := List.mem_map.mp item
        cases same
      · obtain ⟨sec, member, same⟩ := List.mem_map.mp own
        cases same
        exact sound sec member
    obtain ⟨front, arguments, understood⟩ := fetch_understood uid valid _ filled specs rest
    refine ⟨front, arguments, (?_ : (fetch uid set bits sections).command.body = _) ▸ understood⟩
    cases uid <;> simp only [command, fetchCommand, uidFetchCommand, FetchCommand.line,
      fetch_text filled, fetchLine] <;> rfl
  | fetchEnvelopes uid set =>
    obtain ⟨front, arguments, understood⟩ :=
      fetch_understood uid sound [.item .envelope] (by simp) (by simp) rest
    cases uid <;> exact ⟨front, arguments, understood⟩
  | fetchMessage uid set =>
    obtain ⟨front, arguments, understood⟩ :=
      fetch_understood uid sound [.body (.other []) true] (by simp)
      (by simp [SectionSpec.Sound]; decide) rest
    cases uid <;> exact ⟨front, arguments, understood⟩
  | fetchHeaders uid set fields =>
    obtain ⟨valid, sound⟩ := sound
    obtain ⟨front, arguments, understood⟩ :=
      fetch_understood uid valid [.body (.headerFields fields) true]
      (by simp) (by simpa using sound) rest
    have layout :
      [byte ' '].intercalate ([FetchAttr.body (.headerFields fields) true].map FetchAttr.text) =
        headerFields fields := by
      simp [FetchAttr.text, SectionSpec.text, headerFields, ascii]
    rw [layout] at understood
    cases uid <;> exact ⟨front, arguments, understood⟩

end Lines

end Directive

theorem readCommands_lines (commands : List (Tag × Directive))
    (plain : ∀ command ∈ commands, ∀ c ∈ command.1, isAstringChar c = true)
    (sound : ∀ command ∈ commands, command.2.Sound) (rest : Bytes) :
    Server.readCommands commands.length ((commands.flatMap fun command =>
    command.1 ++ command.2.command.body) ++ rest) =
      some (commands.map fun command => (command.1, command.2.order), rest) := by
  induction commands with
  | nil => rfl
  | cons command commands ih =>
    obtain ⟨tagged, others⟩ := List.forall_mem_cons.mp plain
    obtain ⟨own, sounds⟩ := List.forall_mem_cons.mp sound
    let behind := (commands.flatMap fun command => command.1 ++ command.2.command.body) ++ rest
    obtain ⟨front, arguments, understood⟩ := Directive.understood command.2 own behind
    have first : readCommand (command.1 ++ command.2.command.body ++ behind) =
        some ((command.1, command.2.order), behind) := by
      rw [understood.body]
      exact readCommand_append tagged understood.stops understood.reads
    rw [List.flatMap_cons, List.append_assoc, List.length_cons, readCommands]
    simp only [first, Option.bind_eq_bind, Option.bind_some, ih others sounds, List.map_cons, behind]

/-- Whatever one-line commands are pipelined, the server reads them off the wire one by one, each
    with its own tag and with the arguments it was made from, and finds behind them what is sent
    behind them. -/
theorem pipeline_read_back (commands : List (Tag × Directive))
    (plain : ∀ command ∈ commands, ∀ c ∈ command.1, isAstringChar c = true)
    (sound : ∀ command ∈ commands, command.2.Sound) (rest : Bytes) :
    Server.readCommands commands.length
      ((commands.flatMap fun command =>
        ((Request.line command.2.command).render command.1).nextSegment) ++ rest) =
      some (commands.map fun command => (command.1, command.2.order), rest) :=
  readCommands_lines commands plain sound rest

theorem pipeline_read_back_moved : Server.readCommands 3
    (ascii "a1 UID STORE 4:* +FLAGS (\\Seen \\Deleted)\r\na2 MOVE 2,7 \"Old mail\"\r\na3 FETCH 1 (FLAGS BODY[TEXT])\r\n+") =
    some ([(ascii "a1", .store true (ascii "4:*") .add [.seen, .deleted]),
      (ascii "a2", .transfer false .move (ascii "2,7") (ascii "Old mail")),
      (ascii "a3", .fetch false (ascii "1") [.item .flags, .body (.other (ascii "TEXT")) false])],
      ascii "+") := by
  have digit {text : Bytes} (filled : text ≠ []) (all : text.all isDigit = true)
    (noZero : text.head? ≠ some (byte '0'))
      (low : 1 ≤ decimalValue text) (high : decimalValue text ≤ 2 ^ 32 - 1) :
        SequenceSet.SeqNumber text :=
    .number filled (List.all_eq_true.mp all) noZero low high
  have four : SequenceSet.SeqNumber (ascii "4") :=
    digit (by decide) rfl (by decide) (by decide) (by decide)
  have two : SequenceSet.SeqNumber (ascii "2") :=
    digit (by decide) rfl (by decide) (by decide) (by decide)
  have seven : SequenceSet.SeqNumber (ascii "7") :=
    digit (by decide) rfl (by decide) (by decide) (by decide)
  have one : SequenceSet.SeqNumber (ascii "1") :=
    digit (by decide) rfl (by decide) (by decide) (by decide)
  have stored : SequenceSet.SeqSet (ascii "4:*") := .last (.pair four .star)
  have moved : SequenceSet.SeqSet (ascii "2,7") := .more (.single two) (.last (.single seven))
  have fetched : SequenceSet.SeqSet (ascii "1") := .last (.single one)
  refine pipeline_read_back [(ascii "a1",
    .store true (ascii "4:*") (({} : FlagSet).set .seen |>.set .deleted) .add),
    (ascii "a2", .move false (ascii "2,7") (ascii "Old mail")),
    (ascii "a3", .fetch false (ascii "1") 4 [(.other (ascii "TEXT"), false)])]
    (List.forall_mem_cons.mpr ⟨List.all_eq_true.mp rfl,
    List.forall_mem_cons.mpr ⟨List.all_eq_true.mp rfl,
      List.forall_mem_singleton.mpr (List.all_eq_true.mp rfl)⟩⟩) ?_ (ascii "+")
  have inside : ∀ c ∈ ascii "TEXT", c ≠ byte ']' ∧ c ≠ byte '\r' ∧ c ≠ byte '\n' := by
    simp [ascii]
    decide
  refine List.forall_mem_cons.mpr ⟨stored, List.forall_mem_cons.mpr ⟨⟨moved, List.all_eq_true.mp rfl⟩,
    List.forall_mem_singleton.mpr
    ⟨fetched, by decide, List.forall_mem_singleton.mpr ⟨inside, by decide⟩⟩⟩⟩

end Bkmail
