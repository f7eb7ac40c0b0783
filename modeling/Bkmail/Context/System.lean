import Bkmail.Automaton.Runs
import Bkmail.Context.ReadPump

namespace Bkmail

namespace ContextCore

def allocateTag (s : ContextCore) : ContextCore :=
  { s with tagCounter := (s.tagCounter + 1) % 2 ^ 64, tags := s.tags ++ [tagText s.tagCounter] }

/-- The part of `submit` and `start_operation` between the tag and the registration: the cell
    is allocated at an address that no live cell has, and `attach` renders the command. -/
def attach (s : ContextCore) (tag : Tag) (request : Request) (addr : Nat) (callbackPath kick : Bool) :
    Outcome :=
  { core := { s with
      cell := Function.update s.cell s.made (Operation.attach addr tag request callbackPath)
      made := s.made + 1
      live := s.live ++ [s.made]
      tags := s.tags.erase tag }
    left := [.enqueueOperation s.made kick] }

@[simps]
def register (s : ContextCore) (op : OpId) : ContextCore :=
  { s.emit [.enqueued op] with
    writeQueue := s.writeQueue ++ [op]
    registry := emplace s.registry (s.cell op).tag op }

def takeStopRequest (s : ContextCore) (op : OpId) : ContextCore :=
  s.modify op fun c => { c with stopSeen := false }

/-- `enqueue_operation`. A stop request that came between `attach` and the registration takes
    the cell out again in the same section. -/
def enqueueOperation (s : ContextCore) (op : OpId) (kick : Bool) : Outcome :=
  if s.phase = .opened then
    if (s.cell op).stopSeen then
      let (t, stopped) := ((s.register op).takeStopRequest op).extractFromQueueLocked op
      { core := t.unregister (s.cell op).tag, left := stopped.toList.map .postCompleteStopped }
    else { core := s.register op, left := if kick then [.postKick] else [] }
  else
    { core := s
      left := [.fail op (if s.byeReceived then .serverBye else .operationCanceled), .dispose [op]] }

/-- `detach_locked` on the registry entry `(tag, p)`: the cell to complete as stopped, and whether
    the write pump must be kicked. -/
def detachLocked (s : ContextCore) (tag : Tag) (p : OpId) : ContextCore × Option OpId × Bool :=
  match s.deref p with
  | none => (s.emit [.dangling p], none, false)
  | some op =>
    let c := s.cell op
    if !c.hasWritten && !c.isWritten && !c.isStaged && !c.awaitsContinuation then
      let (t, cell) := s.extractFromQueueLocked op
      (t.unregister tag, cell, false)
    else
      match c.cancelWritten with
      | some cancelled => (s.modify op fun _ => cancelled, none, true)
      | none =>
        if c.isWritten then
          let (t, cell) := s.extractFromQueueLocked op
          (t.unregister tag, cell, false)
        else
          ((s.modify op Operation.markDetached).unregister tag, none, false)

def findAndDetachLocked (s : ContextCore) (tag : Tag) (expected : Option OpId) :
    ContextCore × Option OpId × Bool :=
  match lookup s.registry tag with
  | none => (s, none, false)
  | some p =>
    if expected.any fun op => !s.sameAddress p op then (s, none, false) else s.detachLocked tag p

/-- The locked section that `cancel` and `on_stop_requested` share, and `finish_cancellation`. -/
def cancelWith (s : ContextCore) (tag : Tag) (expected : Option OpId) : Outcome :=
  if s.phase ≠ .opened then { core := s }
  else
    let (t, cell, kick) := s.findAndDetachLocked tag expected
    { core := t
      left := (if kick then [.postKick] else []) ++ cell.toList.map .postCompleteStopped }

def requestStop (s : ContextCore) (op : OpId) : Outcome :=
  (s.modify op fun c => { c with stopSeen := true }).cancelWith (s.cell op).tag (some op)

def close (s : ContextCore) : Outcome :=
  if s.phase ≠ .opened then { core := s }
  else
    let (t, pending) := s.takeCellsLocked fun c => !c.isWritten && !c.isStaged
    { core := { t.emit [.shutdownRead] with
        phase := .draining
        continuationTarget := none
        registry := pending.foldl (fun registry op => erase registry (s.cell op).tag) s.registry }
      left := pending.map (.fail · .operationCanceled) ++ [.maybeFinishClose, .dispose pending] }

def abandon (s : ContextCore) : Outcome :=
  if s.phase = .closed then { core := s }
  else
    let (t, dropped) := s.takeCellsLocked fun c => !c.isStaged
    { core := { t.emit [.shutdownRead] with
        phase := .draining, abandoned := true, continuationTarget := none, registry := [] }
      left := [.dispose dropped, .maybeFinishClose] }

end ContextCore

/-- What the environment answers when it completes an operation; `go` lets a thread run. -/
inductive Choice where
  | go
  | done
  | failed (ec : ErrorCode)
  | eof
  | data (texts : List Bytes)
  deriving DecidableEq, Repr

/-- One section of the code, from taking the mutex to releasing it. An armed operation goes on
    only with an answer of the environment. -/
def Work.run (s : ContextCore) : Work → Choice → Option Outcome
  | .reading, .failed ec => some (s.readReceiver (.failed ec))
  | .reading, .eof => some (s.readReceiver .eof)
  | .reading, .data texts => some (s.readReceiver (.data texts))
  | .writing batch, .done => some (s.onWriteDone none batch)
  | .writing batch, .failed ec => some (s.onWriteDone (some ec) batch)
  | .kickScheduled, .done => some (s.kickReceiver true)
  | .kickScheduled, .failed _ => some (s.kickReceiver false)
  | .stopScheduled op, .done => some { core := s.completeStopped op, left := [.dispose [op]] }
  | .enqueueOperation op post, .go => some (s.enqueueOperation op post)
  | .postKick, .go => some s.postKick
  | .postCompleteStopped op, .go => some { core := s, armed := [.stopScheduled op] }
  | .fail op ec, .go => some { core := s.fail op ec }
  | .onTagged op r, .go => some { core := s.onTagged op r }
  | .dispose ops, .go => some { core := s.dispose ops }
  | .maybeFinishClose, .go => some { core := s.maybeFinishClose }
  | .connectionLost ec, .go => some (s.connectionLost ec)
  | .kickGate, .go => some s.kickGate
  | .kick, .go => some s.kick
  | .armWrite batch, .go => some (s.armWrite batch)
  | .writeFailed ec retired, .go => some (s.writeFailed ec retired)
  | .writeLost ec retired, .go => some (s.writeLost ec retired)
  | .writeQuiet batch, .go => some (s.writeQuiet batch)
  | .writeFlushed batch, .go => some (s.writeFlushed batch)
  | .armRead, .go => some s.armRead
  | .onReadFailed ec, .go => some (s.onReadFailed ec)
  | .readLoop texts, .go => some (s.readLoop texts)
  | .routeUntagged r, .go => some (s.routeUntagged r)
  | .rearm, .go => some s.rearm
  | .readLost, .go => some s.readLost
  | .readStop, .go => some s.readStop
  | _, _ => none

/-- The calls that a user, a handler or a stop source makes into the context. A submitted cell is
    kicked off on the sender path only; plain handlers wait for a flush. -/
inductive Call where
  | allocateTag
  | submit (tag : Tag) (request : Request) (addr : Nat) (callbackPath : Bool)
  | flush
  | cancel (tag : Tag)
  | requestStop (op : OpId)
  | close
  | abandon
  | suspendReadForRelocation
  deriving DecidableEq, Repr

def Call.run (s : ContextCore) : Call → Option Outcome
  | .allocateTag => some { core := s.allocateTag }
  | .submit tag request addr callbackPath =>
    if tag ∈ s.tags ∧ ∀ op ∈ s.live, (s.cell op).addr ≠ addr then
      some (s.attach tag request addr callbackPath !callbackPath)
    else none
  | .flush => some (s.emit [.flushCalled]).postKick
  | .cancel tag => some (s.cancelWith tag none)
  | .requestStop op =>
    if op ∈ s.live ∧ (s.cell op).callbackPath = false ∧ (s.cell op).finished = false then
      some (s.requestStop op)
    else none
  | .close => some s.close
  | .abandon => some s.abandon
  | .suspendReadForRelocation => some { core := { s with suspendRead := true } }

/-- The core with the threads that are inside it. An armed operation is a thread of its own
    that waits for the environment. -/
structure System where
  core : ContextCore := {}
  threads : List (List Work) := [[.armRead]]

inductive Action where
  | call (call : Call)
  | resume (thread : Nat) (choice : Choice)
  deriving DecidableEq, Repr

namespace System

def pending (s : System) : List Work := s.threads.flatten

def step (s : System) : Action → Option System
  | .call call => (call.run s.core).map fun o =>
    { core := o.core, threads := s.threads ++ [o.left] ++ o.armed.map ([·]) }
  | .resume i choice =>
    match s.threads[i]? with
    | some (work :: rest) => (work.run s.core choice).map fun o =>
      { core := o.core, threads := s.threads.set i (o.left ++ rest) ++ o.armed.map ([·]) }
    | _ => none

end System

/-- The machine of `context_core`: the constructor has set `read_running_` and is about to arm
    the first read. Every interleaving of the sections is a run of it. -/
def imapContext : Automaton.Machine System Action := ⟨{}, System.step⟩

end Bkmail
