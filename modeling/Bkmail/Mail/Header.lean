import Bkmail.Response.Fetch
import Mathlib.Data.List.DropRight

namespace Bkmail

def Address.email (address : Address) : Bytes :=
  address.mailboxName ++ if address.hostName.isEmpty then [] else byte '@' :: address.hostName

@[ext]
structure MailHeader where
  subject : Bytes := []
  «from» : List Address := []
  «to» : List Address := []
  cc : List Address := []
  bcc : List Address := []
  date : Bytes := []
  messageId : Bytes := []
  inReplyTo : Bytes := []
  deriving DecidableEq, Repr

structure MailBody where
  contentType : Bytes := []
  data : Bytes := []
  deriving DecidableEq, Repr

structure Mail where
  header : MailHeader := {}
  body : MailBody := {}
  envelope : Option Envelope := none
  deriving DecidableEq, Repr

namespace Fetch

def find (pattern : Bytes) : Bytes → Option Nat
  | [] => if pattern.isEmpty then some 0 else none
  | c :: rest => if pattern.isPrefixOf (c :: rest) then some 0 else (find pattern rest).map (· + 1)

def rfind (wanted : UInt8) : Bytes → Option Nat
  | [] => none
  | c :: rest =>
    match rfind wanted rest with
    | some pos => some (pos + 1)
    | none => if c == wanted then some 0 else none

def isWsp (c : UInt8) : Bool := c == byte ' ' || c == byte '\t'

def isLwsp (c : UInt8) : Bool := c == byte ' ' || c == byte '\t' || c == byte '\r' || c == byte '\n'

def trim (v : Bytes) : Bytes := (v.dropWhile isLwsp).rdropWhile isLwsp

/-- The items between the commas outside of quotes and angle brackets. The search for the next
    comma begins outside of both. -/
def addressItems (inQuote : Bool) (angles : Nat) : Bytes → List Bytes
  | [] => [[]]
  | c :: rest =>
    let inQuote := if c == byte '"' then !inQuote else inQuote
    let angles := if !inQuote && c == byte '<' then (angles + 1) % 2 ^ 32 else angles
    let angles := if !inQuote && c == byte '>' && 0 < angles then angles - 1 else angles
    if !inQuote && angles == 0 && c == byte ',' then [] :: addressItems false 0 rest
    else (addressItems inQuote angles rest).modifyHead (c :: ·)

/-- The address of an item: what stands in front of the brackets is its display name. -/
def readMailAddress (item : Bytes) : Address :=
  let opened := (item.idxOf? (byte '<')).getD item.length
  let closed := (rfind (byte '>') item).getD 0
  let display := trim (item.take opened)
  let unquoted := if 2 ≤ display.length && display.head? == some (byte '"') && display.getLast? ==
    some (byte '"') then
      (display.drop 1).dropLast else display
  let (displayName, spec) :=
    if opened < closed then (unquoted, (item.drop (opened + 1)).take (closed - opened - 1))
    else ([], item)
  let spec := trim spec
  match rfind (byte '@') spec with
  | some pos => { displayName, mailboxName := spec.take pos, hostName := spec.drop (pos + 1) }
  | none => { displayName, mailboxName := spec }

def parseRfc5322Addresses (text : Bytes) : List Address :=
  (((addressItems false 0 text).map trim).filter (!·.isEmpty)).map readMailAddress

def rawLines : Bytes → List Bytes
  | [] => []
  | c :: rest =>
    if c == byte '\n' then [] :: rawLines rest
    else
      match rawLines rest with
      | [] => [[c]]
      | line :: lines => (c :: line) :: lines

def chopReturn (line : Bytes) : Bytes :=
  if line.getLast? == some (byte '\r') then line.dropLast else line

def headerLines (block : Bytes) : List Bytes := (rawLines block).map chopReturn

/-- The state of the line loop: the header, and the field that may have lines to come. -/
structure PendingField where
  out : MailHeader
  name : Bytes := []
  value : Bytes := []

def assignField (out : MailHeader) (name value : Bytes) : MailHeader :=
  let value := value.rdropWhile isWsp
  if asciiIequals name (ascii "Subject") then { out with subject := value }
  else if asciiIequals name (ascii "Date") then { out with date := value }
  else if asciiIequals name (ascii "Message-ID") then { out with messageId := value }
  else if asciiIequals name (ascii "In-Reply-To") then { out with inReplyTo := value }
  else if asciiIequals name (ascii "From")
    then { out with «from» := out.from ++ parseRfc5322Addresses value }
  else if asciiIequals name (ascii "To") then { out with «to» := out.to ++ parseRfc5322Addresses value }
  else if asciiIequals name (ascii "Cc") then { out with cc := out.cc ++ parseRfc5322Addresses value }
  else if asciiIequals name (ascii "Bcc")
    then { out with bcc := out.bcc ++ parseRfc5322Addresses value }
  else out

namespace PendingField

def flush (field : PendingField) : PendingField :=
  { out := if field.name.isEmpty then field.out else assignField field.out field.name field.value }

def takeLine (field : PendingField) (line : Bytes) : PendingField :=
  if line.isEmpty then field.flush
  else if line.head?.any isWsp
    then { field with value := field.value ++ byte ' ' :: line.dropWhile isWsp }
  else
    match line.idxOf? (byte ':') with
    | none => field.flush
    | some colon =>
      let value := line.drop (colon + 1)
      { field.flush with name := line.take colon, value := if value.all isWsp then value
        else value.dropWhile isWsp }

end PendingField

def parseMailHeaderBlock (block : Bytes) (out : MailHeader) : MailHeader :=
  ((headerLines block).foldl PendingField.takeLine { out }).flush.out

/-- The header block and the body of a message, as both commands cut them out of its octets. -/
def splitMessage (text : Bytes) : Bytes × Bytes :=
  match find (ascii "\r\n\r\n") text with
  | some split => (text.take split, text.drop (split + 4))
  | none =>
    match find (ascii "\n\n") text with
    | some split => (text.take split, text.drop (split + 2))
    | none => (text, [])

def readMail (text : Bytes) : Mail :=
  let (headerBlock, bodyBlock) := splitMessage text
  { header := parseMailHeaderBlock headerBlock {}, body := { data := bodyBlock } }

end Fetch

open Fetch

def absorbMessage (messages : List Mail) (r : UntaggedResponse) : List Mail :=
  if r.kind ≠ .fetch then messages
  else
    match (parseBodySectionAttribute (ascii "BODY[]") r.payload).join with
    | none => messages
    | some value => messages ++ [readMail value]

def FetchMessageCommand.onUntagged (messages : List Mail) (r : UntaggedResponse) : List Mail :=
  absorbMessage messages r

def UidFetchMessageCommand.onUntagged (messages : List Mail) (r : UntaggedResponse) : List Mail :=
  absorbMessage messages r

namespace AppendCommand

def putField (name : String) (value : Bytes) : Bytes :=
  if value.isEmpty then [] else ascii name ++ ascii ": " ++ value ++ crlf

def renderAddress (address : Address) : Bytes :=
  if address.displayName.isEmpty then address.email
  else byte '"' :: address.displayName ++ ascii "\" <" ++ address.email ++ [byte '>']

def renderAddresses : List Address → Bytes
  | [] => []
  | [address] => renderAddress address
  | address :: others => renderAddress address ++ ascii ", " ++ renderAddresses others

def putAddresses (name : String) (list : List Address) : Bytes :=
  if list.isEmpty then [] else ascii name ++ ascii ": " ++ renderAddresses list ++ crlf

def renderMail (message : Mail) : Bytes :=
  let h := message.header
  putField "Subject" h.subject ++ putAddresses "From" h.from ++ putAddresses "To" h.to ++
    putAddresses "Cc" h.cc ++ putAddresses "Bcc" h.bcc ++ putField "Date" h.date ++
    putField "Message-ID" h.messageId ++ putField "In-Reply-To" h.inReplyTo ++
    putField "Content-Type" message.body.contentType ++ crlf ++ message.body.data

end AppendCommand
end Bkmail
