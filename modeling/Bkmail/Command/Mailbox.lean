import Bkmail.Command.Progress
import Bkmail.Wire.Astring

namespace Bkmail

open AppendCommand (appendArg)

/-! The commands that name mailboxes. Each of them has a copy of `append_arg`, and of the
`atom_safe` under it, with one and the same text. -/

def createCommand (mailbox : Bytes) : LineCommand :=
  { body := ascii " CREATE " ++ appendArg mailbox ++ crlf }

def renameCommand (oldName newName : Bytes) : LineCommand :=
  { body := ascii " RENAME " ++ appendArg oldName ++ byte ' ' :: appendArg newName ++ crlf }

def selectCommand (mailbox : Bytes) : LineCommand :=
  { body := ascii " SELECT " ++ appendArg mailbox ++ crlf, wants := [.flags] }

def listCommand (reference pattern : Bytes) : LineCommand :=
  { body := ascii " LIST " ++ appendArg reference ++ byte ' ' :: appendArg pattern ++ crlf,
    wants := [.list] }

inductive StatusItem where
  | messages | recent | uidNext | uidValidity | unseen
  deriving DecidableEq, Repr

def StatusItem.bit : StatusItem → UInt8
  | .messages => 1
  | .recent => 2
  | .uidNext => 4
  | .uidValidity => 8
  | .unseen => 16

structure StatusItems where
  bits : UInt8 := 0
  deriving DecidableEq, Repr

def hasStatusItem (set : StatusItems) (item : StatusItem) : Bool := set.bits &&& item.bit == item.bit

def itemNames (items : StatusItems) : List Bytes :=
  [(StatusItem.messages, "MESSAGES"), (.recent, "RECENT"), (.uidNext, "UIDNEXT"),
    (.uidValidity, "UIDVALIDITY"), (.unseen, "UNSEEN")].filterMap fun (item, name) =>
    if hasStatusItem items item then some (ascii name) else none

def appendItems (items : StatusItems) : Bytes := [byte ' '].intercalate (itemNames items)

def statusCommand (mailbox : Bytes) (items : StatusItems) : LineCommand :=
  { body := ascii " STATUS " ++ appendArg mailbox ++ ascii " (" ++ appendItems items ++ ascii ")\r\n"
    wants := [.status] }

inductive MailboxCommand where
  | create (mailbox : Bytes)
  | rename (oldName newName : Bytes)
  | select (mailbox : Bytes)
  | list (reference pattern : Bytes)
  | status (mailbox : Bytes) (items : StatusItems)
  | append (c : AppendCommand)

namespace MailboxCommand

def request : MailboxCommand → Request
  | create mailbox => .line (createCommand mailbox)
  | rename oldName newName => .line (renameCommand oldName newName)
  | select mailbox => .line (selectCommand mailbox)
  | list reference pattern => .line (listCommand reference pattern)
  | status mailbox items => .line (statusCommand mailbox items)
  | append c => .append c

def wire (command : MailboxCommand) (tag : Tag) : Bytes :=
  match command.request.render tag with
  | .line _ wire _ => wire
  | .login c | .append c | .authenticate c => c.segments.flatten
  | .idle c => c.segment

def name : MailboxCommand → Bytes
  | create _ => ascii " CREATE "
  | rename _ _ => ascii " RENAME "
  | select _ => ascii " SELECT "
  | list _ _ => ascii " LIST "
  | status _ _ => ascii " STATUS "
  | append _ => ascii " APPEND "

def arguments : MailboxCommand → List Bytes
  | create mailbox | select mailbox | status mailbox _ => [mailbox]
  | rename first second | list first second => [first, second]
  | append c => [c.mailbox]

def dateTime : MailboxCommand → Bytes
  | append c => c.dateTime
  | _ => []

def marker : MailboxCommand → Bytes
  | append c => ascii " \x7b" ++ decimal c.message.length ++ (if c.literalPlus then [byte '+']
      else []) ++ ascii "\x7d"
  | _ => []

def literal : MailboxCommand → Bytes
  | append c => c.message ++ crlf
  | _ => []

def options : MailboxCommand → Bytes
  | status _ items => ascii " (" ++ appendItems items ++ ascii ")"
  | append c => (if c.flags.any then AppendCommand.appendFlags c.flags else []) ++
      (if c.dateTime.isEmpty then [] else byte ' ' :: appendQuoted c.dateTime)
  | _ => []

/-- The wire text is one command: CR and LF stand only at the end of its line, in the literal that
    the line announces and behind it, and the arguments are read back as they were given. -/
structure Uninjected (command : MailboxCommand) (tag : Tag) : Prop where
  framed : ∃ line, command.wire tag = line ++ crlf ++ command.literal ∧ OneLine line ∧
    command.marker <:+ line
  arguments : ∃ after, Astring.readArguments command.arguments.length
    ((command.wire tag).drop (tag ++ command.name).length) = some (command.arguments, after)

end MailboxCommand
end Bkmail
