import Bkmail.Command.Segmented
import Bkmail.Response.Types

namespace Bkmail

/-- A command that is one line. What follows the tag is fixed when the command is made; the
    data kinds it collects are those its `wants_untagged` accepts. -/
structure LineCommand where
  body : Bytes
  blocksPipeline : Bool := false
  wants : List UntaggedKind := []
  deriving DecidableEq, Repr

def noopCommand : LineCommand := { body := ascii " NOOP\r\n" }
def capabilityCommand : LineCommand := { body := ascii " CAPABILITY\r\n", wants := [.capability] }
def logoutCommand : LineCommand := { body := ascii " LOGOUT\r\n", blocksPipeline := true }
def starttlsCommand : LineCommand := { body := ascii " STARTTLS\r\n", blocksPipeline := true }
inductive IdlePhase where
  | initial | idleSent | idling | donePending | doneSent | finished
  deriving DecidableEq, Repr

/-- `idle_command`: one buffer and one flag serve the IDLE line and DONE. -/
structure IdleCommand where
  segment : Bytes := []
  phase : IdlePhase := .initial
  segmentPending : Bool := false
  doneRequested : Bool := false
  deriving DecidableEq, Repr

namespace IdleCommand

def doneLine : Bytes := ascii "DONE\r\n"

def render (c : IdleCommand) (tag : Tag) : IdleCommand :=
  { c with segment := tag ++ ascii " IDLE\r\n", phase := .idleSent, segmentPending := true }

def queueDone (c : IdleCommand) : IdleCommand :=
  { c with segment := doneLine, segmentPending := true, phase := .donePending }

def done (c : IdleCommand) : IdleCommand :=
  let c := { c with doneRequested := true }
  if c.phase = .idling then c.queueDone else c

def nextSegment (c : IdleCommand) : Bytes := if c.segmentPending then c.segment else []

def awaitsContinuation (c : IdleCommand) : Bool := c.phase = .idleSent

def onSegmentFlushed (c : IdleCommand) : IdleCommand :=
  { c with
    segmentPending := false
    phase := if c.phase = .donePending then .doneSent else c.phase }

def onContinuation (c : IdleCommand) : IdleCommand :=
  if c.phase ≠ .idleSent then c
  else
    let c := { c with phase := .idling }
    if c.doneRequested then c.queueDone else c

end IdleCommand

inductive Request where
  | line (c : LineCommand)
  | login (c : LoginCommand)
  | append (c : AppendCommand)
  | authenticate (c : AuthenticateCommand)
  | idle
  deriving DecidableEq, Repr

/-- A rendered command, as `operation_model` drives it. -/
inductive Command where
  | line (c : LineCommand) (wire : Bytes) (emitted : Bool)
  | login (c : Segmented)
  | append (c : Segmented)
  | authenticate (c : Segmented)
  | idle (c : IdleCommand)
  deriving DecidableEq, Repr

def Request.render (tag : Tag) : Request → Command
  | .line c => .line c (tag ++ c.body) false
  | .login c => .login (c.render tag)
  | .append c => .append (c.render tag)
  | .authenticate c => .authenticate (c.render tag)
  | .idle => .idle (IdleCommand.render {} tag)

namespace Command

def nextSegment : Command → Bytes
  | .line _ wire emitted => if emitted then [] else wire
  | .login c | .append c | .authenticate c => c.nextSegment
  | .idle c => c.nextSegment

def awaitsContinuation : Command → Bool
  | .line .. => false
  | .login c | .append c | .authenticate c => c.awaitsContinuation
  | .idle c => c.awaitsContinuation

def blocksPipeline : Command → Bool
  | .line c .. => c.blocksPipeline
  | .authenticate _ => true
  | .login _ | .append _ | .idle _ => false

def onSegmentFlushed : Command → Command
  | .line c wire _ => .line c wire true
  | .login c => .login c.onSegmentFlushed
  | .append c => .append c.onSegmentFlushed
  | .authenticate c => .authenticate c.onSegmentFlushed
  | .idle c => .idle c.onSegmentFlushed

def onContinuation : Command → Command
  | .line c wire emitted => .line c wire emitted
  | .login c => .login c.onContinuation
  | .append c => .append c.onContinuation
  | .authenticate c => .authenticate (AuthenticateCommand.onContinuation c)
  | .idle c => .idle c.onContinuation

def wantsUntagged (kind : UntaggedKind) : Command → Bool
  | .line c .. => c.wants.contains kind
  | .login _ | .append _ | .authenticate _ | .idle _ => false

def afterTagged : Command → Command
  | .idle c => .idle { c with phase := .finished }
  | c => c

def done? : Command → Option Command
  | .idle c => some (.idle c.done)
  | _ => none

end Command

end Bkmail
