import Bkmail.Context.Deliveries

namespace Bkmail

/-! The operation states of Layer 2 that drive one command, `state_op_operation` and
`idle_op_operation`, on a context that other threads run at the same time. -/

def Section.pushes : Section → List UnsolicitedEvent
  | .work (.readLoop (text :: _)) _ =>
    match Parser.parse text with
    | some (.untagged r) => (ContextCore.makeUnsolicitedEvent r).toList
    | _ => []
  | _ => []

def containsCapability (capabilities : List Bytes) (name : Bytes) : Bool :=
  capabilities.any (asciiIequals · name)

inductive OperationKind where
  | stateOp (request : Request) (requiredCapability : Bytes)
  | idleOp
  deriving DecidableEq, Repr

namespace OperationKind

def request : OperationKind → Request
  | stateOp request _ => request
  | idleOp => .idle

def requiredCapability : OperationKind → Bytes
  | stateOp _ requiredCapability => requiredCapability
  | idleOp => ascii "IDLE"

end OperationKind

/-- Where `start` stands: the step it does next. The thread of `submitting` is the one that is
    inside `submit`. -/
inductive StartStep where
  | entry
  | listen
  | submit
  | submitting (thread : Nat)
  | storeTag
  | flush
  | armTimer
  | registerStop
  | engageStop
  | returned
  deriving DecidableEq, Repr

/-- What the receiver is completed with. `capabilityRequired` and `woken` are values, too. -/
inductive Exit where
  | result (ec : Option ErrorCode)
  | capabilityRequired
  | woken
  | stopped
  deriving DecidableEq, Repr

/-- An operation state with its connection. The last four fields are history: the tag and the cell
    that `submit` made, the tags `cancel` was called with, the completions of the receiver, and
    whether a step of `start` has used the operation or its connection behind one. -/
structure StateOperation where
  kind : OperationKind
  capabilities : List Bytes := []
  step : StartStep := .entry
  busy : Bool := false
  tag : Tag := []
  listening : Bool := false
  timer : Bool := false
  stopRequested : Bool := false
  stopCallback : Bool := false
  completed : Bool := false
  stopPosted : Bool := false
  command : Option (Tag × OpId) := none
  cancelled : List Tag := []
  exits : List Exit := []
  touched : Bool := false

namespace StateOperation

def isIdle (op : StateOperation) : Bool := op.kind == .idleOp

def submittedTag (op : StateOperation) : Tag := (op.command.map Prod.fst).getD []

def handles (op : StateOperation) (cell : OpId) : Bool := op.command.any fun (_, own) => own == cell

def missesCapability (op : StateOperation) : Bool :=
  op.kind.requiredCapability != [] && !containsCapability op.capabilities op.kind.requiredCapability

def touch (op : StateOperation) : StateOperation :=
  { op with touched := op.touched || !op.exits.isEmpty }

def exit (op : StateOperation) (exit : Exit) : StateOperation :=
  { op with busy := false, exits := op.exits ++ [exit] }

def cleanup (op : StateOperation) : StateOperation :=
  { op with stopCallback := false, timer := false, busy := false }

def onResult (op : StateOperation) (ec : Option ErrorCode) : StateOperation :=
  if op.completed then op else { op with completed := true }.cleanup.exit (.result ec)

end StateOperation

def UnsolicitedEvent.wakes : UnsolicitedEvent → Bool
  | .exists _ | .expunge _ => true
  | .recent _ | .flagsUpdate _ | .capability _ | .bye .. | .greeting .. => false

structure Session where
  system : System := {}
  op : StateOperation

namespace Session

def call (s : Session) (c : Call) : Session :=
  { s with system := (s.system.step (.call c)).getD s.system }

def cancel (s : Session) : Session :=
  { s.call (.cancel s.op.tag) with op := { s.op with cancelled := s.op.cancelled ++ [s.op.tag] } }

def wake (s : Session) : Session :=
  if s.op.completed then s
  else
    let s := { s with op := { s.op with completed := true } }.cancel
    { s with op := s.op.cleanup.exit .woken }

def stopForwarder (s : Session) : Session :=
  if s.op.completed then s
  else
    let s := { s with op := { s.op with completed := true } }.cancel
    { s with op := { s.op.cleanup with stopPosted := true } }

def onUnsolicited (s : Session) (event : UnsolicitedEvent) : Session :=
  if s.op.listening && event.wakes then s.wake else s

def onDelivery (s : Session) (delivery : OpId × Delivery) : Session :=
  match delivery with
  | (cell, .value ec) =>
    if s.op.handles cell then { s with op := s.op.onResult ec } else s
  | (_, .stopped) => s

def submit (s : Session) (addr : Nat) : Option Session :=
  let tag := tagText s.system.core.tagCounter
  let s := s.call .allocateTag
  (s.system.step (.call (.submit tag s.op.kind.request addr true))).map fun system =>
    { system
      op := { s.op with
        command := some (tag, s.system.core.made), step := .submitting s.system.threads.length } }

def goTo (s : Session) (step : StartStep) : Session := { s with op := { s.op with step } }

def touch (s : Session) : Session := { s with op := s.op.touch }

def start (s : Session) (addr : Nat) : Option Session :=
  match s.op.step with
  | .entry =>
    some <|
      if s.op.stopRequested then { s with op := s.op.exit .stopped }.goTo .returned
      else if s.op.missesCapability then { s with op := s.op.exit .capabilityRequired }.goTo .returned
      else { s with op := { s.op with busy := true } }.goTo (if s.op.isIdle then .listen else .submit)
  | .listen => some ({ s with op := { s.op.touch with listening := true } }.goTo .submit)
  | .submit => s.touch.submit addr
  | .submitting thread => if s.system.threads[thread]? = some [] then some (s.goTo .storeTag) else none
  | .storeTag =>
    some ({ s with op := { s.op.touch with tag := s.op.submittedTag } }.goTo .flush)
  | .flush => some ((s.touch.call .flush).goTo (if s.op.isIdle then .armTimer else .registerStop))
  | .armTimer => some ({ s with op := { s.op.touch with timer := true } }.goTo .registerStop)
  | .registerStop =>
    let s := { s with op := { s.op.touch with stopCallback := true } }.goTo .engageStop
    some (if s.op.stopRequested then s.stopForwarder else s)
  | .engageStop => some (s.touch.goTo .returned)
  | .returned => none

end Session

/-- A thread inside the context or a call into it, the next step of `start`, a stop request, the
    heartbeat, and the posted stopped delivery. -/
inductive SessionAction where
  | context (action : Action)
  | start (addr : Nat)
  | requestStop
  | heartbeat
  | deliverStopped
  deriving DecidableEq, Repr

namespace Session

def context (s : Session) (action : Action) : Option Session :=
  match s.system.section? action, s.system.step action with
  | some sec, some system =>
    some ((sec.outcomes s.system.core).foldl onDelivery
      (sec.pushes.foldl onUnsolicited { s with system }))
  | _, _ => none

def step (s : Session) : SessionAction → Option Session
  | .context action => s.context action
  | .start addr => s.start addr
  | .requestStop =>
    if s.op.stopRequested then some s
    else
      let s := { s with op := { s.op with stopRequested := true } }
      some (if s.op.stopCallback then s.stopForwarder else s)
  | .heartbeat => if s.op.timer then some s.wake else none
  | .deliverStopped => if s.op.stopPosted
      then some { s with op := { s.op with stopPosted := false }.exit .stopped } else none

end Session

def sessionOperation (kind : OperationKind) (capabilities : List Bytes) :
    Automaton.Machine Session SessionAction :=
  ⟨{ op := { kind, capabilities } }, Session.step⟩

end Bkmail
