import Bkmail.Command.Mailbox
import Bkmail.Wire.Rendering

namespace Bkmail

open AppendCommand (appendArg)

/-! The remaining commands that are one line. Each header has a text of its own; the commands on
sequence numbers and those on UIDs differ in the verb alone. -/

def deleteCommand (mailbox : Bytes) : LineCommand :=
  { body := ascii " DELETE " ++ appendArg mailbox ++ crlf }

def subscribeCommand (mailbox : Bytes) : LineCommand :=
  { body := ascii " SUBSCRIBE " ++ appendArg mailbox ++ crlf }

def unsubscribeCommand (mailbox : Bytes) : LineCommand :=
  { body := ascii " UNSUBSCRIBE " ++ appendArg mailbox ++ crlf }

def examineCommand (mailbox : Bytes) : LineCommand :=
  { body := ascii " EXAMINE " ++ appendArg mailbox ++ crlf, wants := [.flags] }

def expungeCommand : LineCommand := { body := ascii " EXPUNGE\r\n" }

def closeCommand : LineCommand := { body := ascii " CLOSE\r\n" }

inductive StoreMode where
  | add | remove | replace
  deriving DecidableEq, Repr

def StoreMode.item : StoreMode → Bytes
  | .add => ascii "+FLAGS"
  | .remove => ascii "-FLAGS"
  | .replace => ascii "FLAGS"

namespace StoreCommand

def flagNames (flags : FlagSet) : List Bytes :=
  [(MessageFlag.seen, "\\Seen"), (.answered, "\\Answered"), (.flagged, "\\Flagged"),
    (.deleted, "\\Deleted"), (.draft, "\\Draft"), (.recent, "\\Recent")].filterMap
      fun (flag, name) => if flags.test flag then some (ascii name) else none

def appendFlagNames (flags : FlagSet) : Bytes := [byte ' '].intercalate (flagNames flags)

def line (verb set : Bytes) (flags : FlagSet) (mode : StoreMode) : LineCommand :=
  { body := verb ++ set ++ byte ' ' :: mode.item ++ ascii " (" ++ appendFlagNames flags ++
    ascii ")\r\n" }

end StoreCommand

def storeCommand (seqSet : Bytes) (flags : FlagSet) (mode : StoreMode) : LineCommand :=
  StoreCommand.line (ascii " STORE ") seqSet flags mode

def uidStoreCommand (uidSet : Bytes) (flags : FlagSet) (mode : StoreMode) : LineCommand :=
  StoreCommand.line (ascii " UID STORE ") uidSet flags mode

def transferLine (verb set mailbox : Bytes) : LineCommand :=
  { body := verb ++ set ++ byte ' ' :: renderAstring mailbox ++ crlf }

def copyCommand (seqSet mailbox : Bytes) : LineCommand := transferLine (ascii " COPY ") seqSet mailbox

def uidCopyCommand (uidSet mailbox : Bytes) : LineCommand :=
  transferLine (ascii " UID COPY ") uidSet mailbox

def moveCommand (seqSet mailbox : Bytes) : LineCommand := transferLine (ascii " MOVE ") seqSet mailbox

def uidMoveCommand (uidSet mailbox : Bytes) : LineCommand :=
  transferLine (ascii " UID MOVE ") uidSet mailbox

def searchCommand (criteria : Bytes) : LineCommand :=
  { body := ascii " SEARCH " ++ criteria ++ crlf, wants := [.search] }

def uidSearchCommand (criteria : Bytes) : LineCommand :=
  { body := ascii " UID SEARCH " ++ criteria ++ crlf, wants := [.search] }

namespace FetchItems

inductive Item where
  | envelope | bodyStructure | flags | uid | internalDate | rfc822Size
  deriving DecidableEq, Repr

def Item.bit : Item → UInt32
  | .envelope => 1
  | .bodyStructure => 2
  | .flags => 4
  | .uid => 8
  | .internalDate => 16
  | .rfc822Size => 32

structure BodySection where
  specifier : Bytes
  peek : Bool := true
  deriving DecidableEq, Repr

end FetchItems

structure FetchItems where
  bits : UInt32 := 0
  sections : List FetchItems.BodySection := []
  deriving DecidableEq, Repr

namespace FetchItems

def test (items : FetchItems) (i : Item) : Bool := items.bits &&& i.bit != 0

end FetchItems

namespace FetchCommand

def itemNames (items : FetchItems) : List Bytes :=
  [(FetchItems.Item.envelope, "ENVELOPE "), (.bodyStructure, "BODYSTRUCTURE "), (.flags, "FLAGS "),
    (.uid, "UID "), (.internalDate, "INTERNALDATE "), (.rfc822Size, "RFC822.SIZE ")].filterMap
      fun (item, name) => if items.test item then some (ascii name) else none

def appendItems (items : FetchItems) : Bytes :=
  (itemNames items).flatten ++
    items.sections.flatMap fun sec =>
    ascii (if sec.peek then "BODY.PEEK[" else "BODY[") ++ sec.specifier ++ ascii "] "

def trimmed (line : Bytes) : Bytes := if line.getLast? = some (byte ' ') then line.dropLast else line

def line (verb set : Bytes) (items : FetchItems) : LineCommand :=
  { body := trimmed (verb ++ set ++ ascii " (" ++ appendItems items) ++ ascii ")\r\n",
    wants := [.fetch] }

end FetchCommand

def fetchCommand (seqSet : Bytes) (items : FetchItems) : LineCommand :=
  FetchCommand.line (ascii " FETCH ") seqSet items

def uidFetchCommand (uidSet : Bytes) (items : FetchItems) : LineCommand :=
  FetchCommand.line (ascii " UID FETCH ") uidSet items

def fetchLine (verb set attributes : Bytes) : LineCommand :=
  { body := verb ++ set ++ ascii " (" ++ attributes ++ ascii ")\r\n", wants := [.fetch] }

def fetchEnvelopesCommand (seqSet : Bytes) : LineCommand :=
  fetchLine (ascii " FETCH ") seqSet (ascii "ENVELOPE")

def uidFetchEnvelopesCommand (uidSet : Bytes) : LineCommand :=
  fetchLine (ascii " UID FETCH ") uidSet (ascii "ENVELOPE")

def fetchMessageCommand (seqSet : Bytes) : LineCommand :=
  fetchLine (ascii " FETCH ") seqSet (ascii "BODY.PEEK[]")

def uidFetchMessageCommand (uidSet : Bytes) : LineCommand :=
  fetchLine (ascii " UID FETCH ") uidSet (ascii "BODY.PEEK[]")

def headerFields (fields : List Bytes) : Bytes :=
  ascii "BODY.PEEK[HEADER.FIELDS (" ++ [byte ' '].intercalate (fields.map renderAstring) ++ ascii ")]"

def fetchHeadersCommand (seqSet : Bytes) (fields : List Bytes) : LineCommand :=
  fetchLine (ascii " FETCH ") seqSet (headerFields fields)

def uidFetchHeadersCommand (uidSet : Bytes) (fields : List Bytes) : LineCommand :=
  fetchLine (ascii " UID FETCH ") uidSet (headerFields fields)

end Bkmail
