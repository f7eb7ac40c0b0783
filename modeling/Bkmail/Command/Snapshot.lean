import Bkmail.Command.Mailbox
import Bkmail.Response.Parser

namespace Bkmail

structure MailboxInfo where
  name : Bytes := []
  «exists» : Nat := 0
  recent : Nat := 0
  unseen : Option Nat := none
  uidValidity : Nat := 0
  uidNext : Nat := 0
  flags : FlagSet := {}
  permanentFlags : FlagSet := {}
  readOnly : Bool := false
  deriving DecidableEq, Repr

/-! What SELECT and EXAMINE make of the untagged responses. The two commands have the same
accumulators, here the `MailboxInfo` that they fill in, and differ in the default of `read_only`. -/

namespace Snapshot

def addFlag (atom : Bytes) (out : FlagSet) : FlagSet :=
  if atom.head? ≠ some (byte '\\') then out
  else
    let name := atom.drop 1
    if asciiIequals name (ascii "Seen") then out.set .seen
    else if asciiIequals name (ascii "Answered") then out.set .answered
    else if asciiIequals name (ascii "Flagged") then out.set .flagged
    else if asciiIequals name (ascii "Deleted") then out.set .deleted
    else if asciiIequals name (ascii "Draft") then out.set .draft
    else if asciiIequals name (ascii "Recent") then out.set .recent
    else out

def parseFlagList (text : Bytes) (out : FlagSet) : FlagSet :=
  match text.dropWhile (· != byte '(') with
  | [] => out
  | _ :: list =>
    if list.contains (byte ')') then
      ((list.takeWhile (· != byte ')')).splitOn (byte ' ')).foldl (fun out atom => addFlag atom out) out
    else out

def applyOkCode (info : MailboxInfo) : Option ResponseCode → MailboxInfo
  | some (.uidvalidity value) => { info with uidValidity := value }
  | some (.uidnext value) => { info with uidNext := value }
  | some (.unseen value) => { info with unseen := some value }
  | some (.permanentflags flags) => { info with permanentFlags := flags }
  | _ => info

/-- `on_untagged`; the counts are cut to 32 bits. -/
def onUntagged (info : MailboxInfo) (r : UntaggedResponse) : MailboxInfo :=
  match r.kind with
  | .exists => { info with «exists» := r.number % 2 ^ 32 }
  | .recent => { info with recent := r.number % 2 ^ 32 }
  | .flags => { info with flags := parseFlagList r.payload info.flags }
  | .ok => applyOkCode info r.code
  | _ => info

def absorbed (responses : List UntaggedResponse) : MailboxInfo := responses.foldl onUntagged {}

end Snapshot

def SelectCommand.onTagged (mailbox : Bytes) (info : MailboxInfo) (r : TaggedResponse) :
    Option ErrorCode × MailboxInfo :=
  match mapStatusToEc r.status with
  | some ec => (some ec, {})
  | none => (none, { info with name := mailbox, readOnly := r.code == some .readOnly })

def ExamineCommand.onTagged (mailbox : Bytes) (info : MailboxInfo) (r : TaggedResponse) :
    Option ErrorCode × MailboxInfo :=
  match mapStatusToEc r.status with
  | some ec => (some ec, {})
  | none => (none, { info with name := mailbox, readOnly := !(r.code == some .readWrite) })

structure MailboxStatus where
  messages : Option Nat := none
  recent : Option Nat := none
  uidNext : Option Nat := none
  uidValidity : Option Nat := none
  unseen : Option Nat := none
  deriving DecidableEq, Repr

def MailboxStatus.get (status : MailboxStatus) : StatusItem → Option Nat
  | .messages => status.messages
  | .recent => status.recent
  | .uidNext => status.uidNext
  | .uidValidity => status.uidValidity
  | .unseen => status.unseen

def StatusItem.name : StatusItem → String
  | .messages => "MESSAGES"
  | .recent => "RECENT"
  | .uidNext => "UIDNEXT"
  | .uidValidity => "UIDVALIDITY"
  | .unseen => "UNSEEN"

namespace StatusCommand

/-- `std::from_chars` into 32 bits: a value that does not fit is an error, and what follows the
    digits is not looked at. -/
def fromChars32 (text : Bytes) : Option Nat :=
  let digits := text.takeWhile isDigit
  if digits.isEmpty then none
  else if decimalValue digits < 2 ^ 32 then some (decimalValue digits)
  else none

def applyPair (status : MailboxStatus) (name number : Bytes) : MailboxStatus :=
  match fromChars32 number with
  | none => status
  | some value =>
    if asciiIequals name (ascii "MESSAGES") then { status with messages := some value }
    else if asciiIequals name (ascii "RECENT") then { status with recent := some value }
    else if asciiIequals name (ascii "UIDNEXT") then { status with uidNext := some value }
    else if asciiIequals name (ascii "UIDVALIDITY") then { status with uidValidity := some value }
    else if asciiIequals name (ascii "UNSEEN") then { status with unseen := some value }
    else status

def skipQuoted : Bytes → Bytes
  | [] => []
  | [_] => []
  | c :: d :: rest =>
    if c == byte '"' then d :: rest
    else if c == byte '\\' then skipQuoted rest
    else skipQuoted (d :: rest)

/-- `skip_literal`, from behind the opening brace. The count is what `from_chars` reads in front of
    the closing brace, in 64 bits. -/
def skipLiteral (text : Bytes) : Bytes :=
  if text.contains (byte '\x7d') then
    let digits := (text.takeWhile (· != byte '\x7d')).takeWhile isDigit
    let behind := (text.dropWhile (· != byte '\x7d')).drop 1
    if digits.isEmpty || !decide (decimalValue digits < 2 ^ 64) then []
    else (if behind.take 2 = crlf then behind.drop 2 else behind).drop (decimalValue digits)
  else []

def skipString (text : Bytes) : Bytes :=
  match text with
  | [] => []
  | c :: rest =>
    if c == byte '"' then skipQuoted rest
    else if c == byte '\x7b' then skipLiteral rest
    else text.dropWhile fun c => c != byte ' ' && c != byte '('

/-- The names and numbers that the loop of `parse_row` takes from the words of a row. -/
def pairs : List Bytes → List (Bytes × Bytes)
  | name :: number :: rest => (name, number) :: pairs rest
  | _ => []

def rowWords (text : Bytes) : Option (List Bytes) :=
  match Cursor.skipSpaces (skipString text) with
  | [] => none
  | c :: list =>
    if c == byte '(' && list.contains (byte ')') then
      some ((list.takeWhile (· != byte ')')).splitOn (byte ' '))
    else none

/-- `parse_row`: a row that is understood starts afresh. -/
def parseRow (status : MailboxStatus) (text : Bytes) : MailboxStatus :=
  match rowWords text with
  | none => status
  | some words => (pairs words).foldl (fun status (name, number) => applyPair status name number) {}

def onUntagged (status : MailboxStatus) (r : UntaggedResponse) : MailboxStatus :=
  if r.kind ≠ .status then status else parseRow status r.payload

end StatusCommand
end Bkmail
