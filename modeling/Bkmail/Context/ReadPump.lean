import Bkmail.Context.WritePump
import Bkmail.Response.Parser

namespace Bkmail

/-- How the permanent read completes. Data is given as the responses that the lexer frames
    from the committed bytes. -/
inductive ReadResult where
  | failed (ec : ErrorCode)
  | eof
  | data (texts : List Bytes)
  deriving DecidableEq, Repr

namespace ContextCore

/-- `prepare` is called and the read registered in one section with the decision to arm. -/
def armRead (s : ContextCore) : Outcome :=
  if s.phase ≠ .opened ∨ s.abandoned ∨ s.suspendRead then
    { core := s.unlatchRead.maybeFinishClose }
  else { core := s.emit [.prepared, .readArmed], armed := [.reading] }

def readReceiver (s : ContextCore) (result : ReadResult) : Outcome :=
  if !s.abandoned ∧ s.phase ≠ .closed then
    match result with
    | .failed ec => { core := s, left := [.onReadFailed (some ec)] }
    | .eof => { core := s, left := [.onReadFailed none] }
    | .data texts => { core := s, left := [.readLoop texts] }
  else { core := s.unlatchRead, left := [.maybeFinishClose] }

/-- The error and EOF branch of `on_read`. A recorded BYE wins over a transport error. -/
def onReadFailed (s : ContextCore) (ec : Option ErrorCode) : Outcome :=
  { core := s.unlatchRead
    left := [.connectionLost (if s.byeReceived then .serverBye else ec.getD .unexpectedResponse)] }

def makeUnsolicitedEvent (r : UntaggedResponse) : Option UnsolicitedEvent :=
  match r.kind with
  | .exists => some (.exists (r.number % 2 ^ 32))
  | .recent => some (.recent (r.number % 2 ^ 32))
  | .expunge => some (.expunge (r.number % 2 ^ 32))
  | .fetch => some (.flagsUpdate (r.number % 2 ^ 32))
  | .capability => some (.capability ((r.payload.splitOn (byte ' ')).filter (· ≠ [])))
  | .bye => some (.bye r.text r.code)
  | .ok | .preauth => some (.greeting r.status r.text r.code)
  | .no | .bad | .flags | .list | .lsub | .status | .search | .unknown => none

@[simps]
def forget (s : ContextCore) (tag : Tag) (p : OpId) : ContextCore :=
  { s with
    registry := erase s.registry tag
    continuationTarget :=
      if s.continuationTarget.any (s.sameAddress p) then none else s.continuationTarget }

/-- `dispatch_one(tagged)`: the cell is taken from the registry and the queue before `on_tagged`
    runs; an unknown tag is dropped. -/
def dispatchTagged (s : ContextCore) (r : TaggedResponse) (rest : List Bytes) : Outcome :=
  match lookup s.registry r.tag with
  | none => { core := s, left := [.readLoop rest] }
  | some p =>
    match (s.forget r.tag p).extractFromQueueLocked p with
    | (t, none) => { core := t, left := [.readLost] }
    | (t, some op) => { core := t, left := [.onTagged op r, .dispose [op], .readLoop rest] }

/-- The first part of `dispatch_one(untagged)`: BYE is recorded and the unsolicited table told. -/
def dispatchUntagged (s : ContextCore) (r : UntaggedResponse) (rest : List Bytes) : Outcome :=
  { core := { s.emit ((makeUnsolicitedEvent r).toList.map .unsolicited) with
      byeReceived := s.byeReceived || r.kind == .bye }
    left := [.routeUntagged r, .readLoop rest] }

def dispatchContinuation (s : ContextCore) (rest : List Bytes) : Outcome :=
  match s.continuationTarget with
  | none => { core := s, left := [.readLost] }
  | some p =>
    let s := { s with continuationTarget := none }
    match s.deref p with
    | none => { core := s.emit [.dangling p], left := [.postKick, .readLoop rest] }
    | some op =>
      { core := (s.modify op Operation.onContinuation).emit [.continued op]
        left := [.postKick, .readLoop rest] }

def dispatch (s : ContextCore) (text : Bytes) (rest : List Bytes) : Outcome :=
  match Parser.parse text with
  | none => { core := s, left := [.readLost] }
  | some (.tagged r) => s.dispatchTagged r rest
  | some (.untagged r) => s.dispatchUntagged r rest
  | some (.continuation _) => s.dispatchContinuation rest

def readLoop (s : ContextCore) : List Bytes → Outcome
  | [] => { core := s, left := [.rearm] }
  | text :: rest => s.dispatch text rest

def commandScoped : UntaggedKind → Bool
  | .fetch | .list | .lsub | .status | .search | .capability | .flags => true
  | .ok | .no | .bad | .preauth | .bye | .exists | .recent | .expunge | .unknown => false

def absorb (r : UntaggedResponse) (s : ContextCore) (p : OpId) : ContextCore :=
  match s.deref p with
  | none => s.emit [.dangling p]
  | some op => s.modify op (·.onUntagged r)

/-- The locked part of `dispatch_one(untagged)`: command-scoped data goes to the earliest queued
    cell that wants it, everything else to every registered operation. -/
def routeUntagged (s : ContextCore) (r : UntaggedResponse) : Outcome :=
  if commandScoped r.kind then
    match s.writeQueue.find? fun op => (s.cell op).wantsUntagged r.kind with
    | none => { core := s }
    | some op => { core := s.modify op (·.onUntagged r) }
  else { core := (s.registry.map (·.2)).foldl (absorb r) s }

def rearm (s : ContextCore) : Outcome :=
  if s.phase = .opened ∧ s.suspendRead = false then { core := s, left := [.armRead] }
  else { core := s.unlatchRead, left := [.maybeFinishClose] }

/-- A fatal protocol violation: `on_read` calls `connection_lost` and then winds the pump down. -/
def readLost (s : ContextCore) : Outcome :=
  let lost := s.connectionLost .unexpectedResponse
  { lost with left := lost.left ++ [.readStop] }

def readStop (s : ContextCore) : Outcome :=
  { core := s.unlatchRead, left := [.maybeFinishClose] }

end ContextCore

end Bkmail
