import Bkmail.Context.State

namespace Bkmail.ContextCore

/-! The sections of `write_pump`. -/

def postKick (s : ContextCore) : Outcome :=
  if s.phase ≠ .opened ∨ s.writeInFlight ∨ s.kickPosted ∨ s.writeQueue = [] then { core := s }
  else { core := { s with kickPosted := true }, armed := [.kickScheduled] }

def kickReceiver (s : ContextCore) (clean : Bool) : Outcome :=
  { core := { s with kickPosted := false }, left := if clean then [.kickGate] else [] }

def kickGate (s : ContextCore) : Outcome :=
  { core := s, left := if s.abandoned then [] else [.kick] }

/-- One round of the drain loop: the segment goes to the staging buffer and the continuation
    route is registered with it. -/
def stage (s : ContextCore) (op : OpId) (segment : Bytes) : ContextCore :=
  let s := { (s.modify op Operation.onSegmentStaged).emit [.staged s.drains op segment] with
    writeStaging := s.writeStaging ++ segment }
  if (s.cell op).awaitsContinuation then { s with continuationTarget := some op } else s

/-- The drain loop of `kick`: one segment of each cell, up to the first wall. -/
def drain (s : ContextCore) : List OpId → ContextCore × List OpId
  | [] => (s, [])
  | op :: rest =>
    if (s.cell op).isWritten then s.drain rest
    else if (s.cell op).nextSegment = [] then
      if (s.cell op).awaitsContinuation then (s, []) else s.drain rest
    else
      let t := s.stage op (s.cell op).nextSegment
      if (s.cell op).awaitsContinuation || (s.cell op).blocksPipeline then (t, [op])
      else
        let (t, staged) := t.drain rest
        (t, op :: staged)

@[simps]
def newDrain (s : ContextCore) : ContextCore := { s with writeStaging := [], drains := s.drains + 1 }

def kick (s : ContextCore) : Outcome :=
  if s.phase ≠ .opened ∨ s.writeInFlight then { core := s }
  else
    let (t, staged) := s.newDrain.drain s.writeQueue
    if t.writeStaging = [] then { core := t }
    else { core := { t with writeInFlight := true }, left := [.armWrite ⟨t.drains, staged⟩] }

/-- The retirement of a write that teardown has overtaken: the cells fail with the
    cancellation code, or are dropped when the shell is gone. -/
def retire (abandoned : Bool) (retired : List OpId) : List Work :=
  (if abandoned then [] else retired.map (.fail · .operationCanceled)) ++
    [.dispose retired, .maybeFinishClose]

def armWrite (s : ContextCore) (batch : Batch) : Outcome :=
  if s.phase ≠ .opened ∨ s.abandoned then
    let (t, retired) := s.unlatchWrite.extractAll batch.ops
    { core := t, left := retire s.abandoned retired }
  else { core := s.emit [.writeArmed batch.number], armed := [.writing batch] }

def onWriteDone (s : ContextCore) (ec : Option ErrorCode) (batch : Batch) : Outcome :=
  match ec with
  | some ec =>
    let (t, retired) := s.unlatchWrite.extractAll batch.ops
    { core := t, left := [.writeFailed ec retired] }
  | none => { core := s, left := [if s.abandoned then .writeQuiet batch else .writeFlushed batch] }

def writeFailed (s : ContextCore) (ec : ErrorCode) (retired : List OpId) : Outcome :=
  { core := s, left := if s.abandoned then [.dispose retired, .maybeFinishClose]
    else [.writeLost ec retired] }

def writeQuiet (s : ContextCore) (batch : Batch) : Outcome :=
  let (t, retired) := s.unlatchWrite.extractAll batch.ops
  { core := t.dispose retired, left := [.maybeFinishClose] }

/-- The flush loop of the open phase. Staged pointers are looked up in the queue by address;
    a detached cell that is fully written leaves the queue. -/
def flushLoop (s : ContextCore) (number : Nat) : List OpId → ContextCore × List OpId
  | [] => (s, [])
  | p :: rest =>
    match s.queueFind p with
    | none => s.flushLoop number rest
    | some op =>
      let s := (s.modify op Operation.onSegmentFlushed).emit [.segmentFlushed number op]
      let s := if (s.cell op).awaitsContinuation then { s with continuationTarget := some op } else s
      if (s.cell op).detached && (s.cell op).isWritten then
        let (s, cell) := s.extractFromQueueLocked op
        let (s, retired) := s.flushLoop number rest
        (s, cell.toList ++ retired)
      else s.flushLoop number rest

def writeFlushed (s : ContextCore) (batch : Batch) : Outcome :=
  if s.phase = .opened then
    let (t, retired) := s.unlatchWrite.flushLoop batch.number batch.ops
    { core := t, left := retired.map .postCompleteStopped ++ [.kick] }
  else
    let (t, retired) := s.unlatchWrite.extractAll batch.ops
    { core := t, left := retire false retired }

/-- The sections of `connection_lost`: the locked one, and what the caller's thread runs then. -/
def connectionLost (s : ContextCore) (ec : ErrorCode) : Outcome :=
  if s.phase = .closed then { core := s }
  else
    let (t, taken) := s.takeCellsLocked fun c => !c.isStaged
    { core := { t.emit (if s.readRunning then [.shutdownRead] else []) with
        phase := .draining, registry := [], continuationTarget := none }
      left := taken.map (.fail · ec) ++ [.dispose taken, .maybeFinishClose] }

/-- The rest of the failed branch of `on_write_done`, from its call of `connection_lost` on. -/
def writeLost (s : ContextCore) (ec : ErrorCode) (retired : List OpId) : Outcome :=
  let lost := s.connectionLost ec
  { lost with left := lost.left ++ retired.map (.fail · ec) ++ [.dispose retired, .maybeFinishClose] }

end Bkmail.ContextCore
