import Bkmail.Context.Operation
import Mathlib.Logic.Function.Basic
import Mathlib.Tactic.Simps.Basic

namespace Bkmail

/-- The identity of a cell: the how-manieth one it is. A pointer carries the identity of the
    cell it was taken from, but the code only ever compares addresses. -/
abbrev OpId := Nat

inductive Phase where
  | opened | draining | closed
  deriving DecidableEq, Repr

/-- The operations of one drain, in the order of their bytes in the staging buffer. -/
structure Batch where
  number : Nat
  ops : List OpId
  deriving DecidableEq, Repr

inductive Terminal where
  | tagged (r : TaggedResponse)
  | fail (ec : ErrorCode)
  | stopped
  deriving DecidableEq, Repr

inductive Delivery where
  | value (ec : Option ErrorCode)
  | stopped
  deriving DecidableEq, Repr

inductive UnsolicitedEvent where
  | exists (count : Nat)
  | recent (count : Nat)
  | expunge (number : Nat)
  | flagsUpdate (number : Nat)
  | capability (atoms : List Bytes)
  | bye (text : Bytes) (code : Option ResponseCode)
  | greeting (status : ResponseStatus) (text : Bytes) (code : Option ResponseCode)
  deriving DecidableEq, Repr

/-- What the sections of the code do to the world outside the core, in the order in which
    they do it. `dangling` is a raw pointer followed to a cell that was disposed. -/
inductive Event where
  | enqueued (op : OpId)
  | flushCalled
  | staged (batch : Nat) (op : OpId) (segment : Bytes)
  | segmentFlushed (batch : Nat) (op : OpId)
  | continued (op : OpId)
  | terminal (op : OpId) (call : Terminal)
  | delivered (op : OpId) (outcome : Delivery)
  | disposed (ops : List OpId)
  | dangling (op : OpId)
  | unsolicited (event : UnsolicitedEvent)
  | prepared
  | readArmed
  | writeArmed (batch : Nat)
  | shutdownRead
  | descriptorClosed
  deriving DecidableEq, Repr

/-- `context_core` with the heap its pointers refer to. `cell` keeps the last contents of every
    cell ever made; `live` are those not disposed yet. -/
structure ContextCore where
  phase : Phase := .opened
  abandoned : Bool := false
  tagCounter : Nat := 1
  registry : List (Tag × OpId) := []
  writeQueue : List OpId := []
  writeStaging : Bytes := []
  writeInFlight : Bool := false
  kickPosted : Bool := false
  continuationTarget : Option OpId := none
  readRunning : Bool := true
  suspendRead : Bool := false
  byeReceived : Bool := false
  cell : OpId → Operation := fun _ => {}
  made : Nat := 0
  live : List OpId := []
  /-- Tags that `allocate_tag` returned and that no cell is stamped with yet. -/
  tags : List Tag := []
  drains : Nat := 0
  log : List Event := []

/-- The work that is pending between the sections of the code: first the operations that only
    the environment completes, then the sections that a thread has still to run. -/
inductive Work where
  | reading
  | writing (batch : Batch)
  | kickScheduled
  | stopScheduled (op : OpId)
  | enqueueOperation (op : OpId) (kick : Bool)
  | postKick
  | postCompleteStopped (op : OpId)
  | fail (op : OpId) (ec : ErrorCode)
  | onTagged (op : OpId) (r : TaggedResponse)
  | dispose (ops : List OpId)
  | maybeFinishClose
  | connectionLost (ec : ErrorCode)
  | kickGate
  | kick
  | armWrite (batch : Batch)
  | writeFailed (ec : ErrorCode) (retired : List OpId)
  | writeLost (ec : ErrorCode) (retired : List OpId)
  | writeQuiet (batch : Batch)
  | writeFlushed (batch : Batch)
  | armRead
  | onReadFailed (ec : Option ErrorCode)
  | readLoop (texts : List Bytes)
  | routeUntagged (r : UntaggedResponse)
  | rearm
  | readLost
  | readStop
  deriving DecidableEq

/-- What a section leaves behind: the core, the sections its thread runs next, and the
    operations it has armed. -/
structure Outcome where
  core : ContextCore
  left : List Work := []
  armed : List Work := []

namespace ContextCore

@[simps]
def emit (s : ContextCore) (events : List Event) : ContextCore := { s with log := s.log ++ events }

@[simps]
def modify (s : ContextCore) (op : OpId) (change : Operation → Operation) : ContextCore :=
  { s with cell := Function.update s.cell op (change (s.cell op)) }

def sameAddress (s : ContextCore) (p q : OpId) : Bool := (s.cell p).addr == (s.cell q).addr

/-- The live cell at the address a raw pointer holds. -/
def deref (s : ContextCore) (p : OpId) : Option OpId := s.live.find? (s.sameAddress p)

def lookup (registry : List (Tag × OpId)) (tag : Tag) : Option OpId :=
  (registry.find? (·.1 == tag)).map (·.2)

def emplace (registry : List (Tag × OpId)) (tag : Tag) (op : OpId) : List (Tag × OpId) :=
  if registry.any (·.1 == tag) then registry else registry ++ [(tag, op)]

def erase (registry : List (Tag × OpId)) (tag : Tag) : List (Tag × OpId) := registry.filter (·.1 != tag)

@[simps]
def unregister (s : ContextCore) (tag : Tag) : ContextCore :=
  { s with registry := erase s.registry tag }

@[simps]
def unlatchWrite (s : ContextCore) : ContextCore := { s with writeInFlight := false }

@[simps]
def unlatchRead (s : ContextCore) : ContextCore := { s with readRunning := false }

def queueFind (s : ContextCore) (p : OpId) : Option OpId := s.writeQueue.find? (s.sameAddress p)

def extractFromQueueLocked (s : ContextCore) (p : OpId) : ContextCore × Option OpId :=
  match s.queueFind p with
  | none => (s, none)
  | some op => ({ s with writeQueue := s.writeQueue.erase op }, some op)

/-- The loop that extracts the cells of a staged list, as every write completion outside the
    open phase runs it. -/
def extractAll (s : ContextCore) : List OpId → ContextCore × List OpId
  | [] => (s, [])
  | p :: rest =>
    let (s, cell) := s.extractFromQueueLocked p
    let (s, retired) := s.extractAll rest
    (s, cell.toList ++ retired)

def takeCellsLocked (s : ContextCore) (pred : Operation → Bool) : ContextCore × List OpId :=
  ({ s with writeQueue := s.writeQueue.filter fun op => !pred (s.cell op) },
    s.writeQueue.filter fun op => pred (s.cell op))

def maybeFinishClose (s : ContextCore) : ContextCore :=
  if s.phase = .draining ∧ s.readRunning = false ∧ s.writeInFlight = false then
    { s.emit [.descriptorClosed] with phase := .closed }
  else s

/-! The terminal deliveries of `operation_model`, behind the one-shot guard. -/

def deliverValue (s : ContextCore) (op : OpId) (ec : Option ErrorCode) : ContextCore :=
  if (s.cell op).finished then s
  else (s.modify op fun c => { c with finished := true }).emit [.delivered op (.value ec)]

def deliverStopped (s : ContextCore) (op : OpId) : ContextCore :=
  if (s.cell op).finished then s
  else (s.modify op fun c => { c with finished := true }).emit
    (if (s.cell op).callbackPath then [] else [.delivered op .stopped])

def fail (s : ContextCore) (op : OpId) (ec : ErrorCode) : ContextCore :=
  (s.emit [.terminal op (.fail ec)]).deliverValue op (some ec)

def onTagged (s : ContextCore) (op : OpId) (r : TaggedResponse) : ContextCore :=
  let s := s.emit [.terminal op (.tagged r)]
  if (s.cell op).stopped then s.deliverStopped op
  else (s.modify op fun c => { c with command := c.command.afterTagged }).deliverValue op
    (mapStatusToEc r.status)

def completeStopped (s : ContextCore) (op : OpId) : ContextCore :=
  (s.emit [.terminal op .stopped]).deliverStopped op

def dispose (s : ContextCore) (ops : List OpId) : ContextCore :=
  { s.emit [.disposed ops] with live := s.live.filter fun op => !ops.contains op }

end ContextCore

end Bkmail
