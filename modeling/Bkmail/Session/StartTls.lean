import Bkmail.Automaton.Runs
import Bkmail.Context.State

namespace Bkmail

/-! The STARTTLS upgrade, `start_tls_operation`: two commands with a handshake between them, a stop
callback that may run at any point, and one claim on the completion. -/

inductive TlsPhase where
  | starttls | handshake | capability
  deriving DecidableEq, Repr

/-- Where `start` stands. The stop callback that a cancelled token runs inline is a thread like any
    other here. -/
inductive TlsStart where
  | entry | submit | storeTag | registerStop | returned
  deriving DecidableEq, Repr

/-- Where the upgrade stands: a command whose handler is registered, the handshake, or the next step
    of `on_starttls`, `on_handshake` or `on_capability` with the code it was called with. A
    withdrawn handler is never invoked. -/
inductive TlsChain where
  | unsubmitted
  | starttls
  | replied (ec : Option ErrorCode)
  | claimed (ec : Option ErrorCode)
  | entering
  | arming
  | handshaking
  | shaken (ec : Option ErrorCode)
  | leaving
  | probing
  | capability
  | probed (ec : Option ErrorCode)
  | withdrawn
  | ended
  deriving DecidableEq, Repr

inductive TlsForwarder where
  | waiting | latch | phase | cancel | claim | post | finished
  deriving DecidableEq, Repr

/-- `starttlsTag` and `capabilityTag` are what the two calls of `submit` return, each of its own
    context; `storing` is an `on_handshake` that has yet to store the second. -/
structure StartTls where
  start : TlsStart := .entry
  chain : TlsChain := .unsubmitted
  forwarder : TlsForwarder := .waiting
  storing : Bool := false
  phase : TlsPhase := .starttls
  stopLatch : Bool := false
  completed : Bool := false
  tag : Tag := []
  starttlsTag : Tag := []
  capabilityTag : Tag := []
  stopRequested : Bool := false
  stopCallback : Bool := false
  stopPosted : Bool := false
  deliveries : List Delivery := []
  deriving DecidableEq, Repr

namespace StartTls

def deliver (s : StartTls) (outcome : Delivery) : StartTls :=
  { s with stopCallback := false, deliveries := s.deliveries ++ [outcome] }

def honour (s : StartTls) (ec : Option ErrorCode) (onward : TlsChain) : StartTls :=
  if s.stopLatch then { s.deliver .stopped with chain := .ended }
  else if ec.isSome then { s.deliver (.value ec) with chain := .ended }
  else { s with chain := onward }

def startStep (s : StartTls) (tag : Tag) : Option StartTls :=
  match s.start with
  | .entry => some (if s.stopRequested then { s.deliver .stopped with start := .returned }
      else { s with start := .submit })
  | .submit => some { s with chain := .starttls, starttlsTag := tag, start := .storeTag }
  | .storeTag => some { s with tag := s.starttlsTag, start := .registerStop }
  | .registerStop =>
    some { s with
      stopCallback := true, start := .returned
      forwarder := if s.stopRequested then .latch else s.forwarder }
  | .returned => none

def chainStep (s : StartTls) (ec : Option ErrorCode) (tag : Tag) : Option StartTls :=
  match s.chain with
  | .starttls => some { s with chain := .replied ec }
  | .replied ec =>
    some (if s.completed then { s with chain := .ended }
      else { s with completed := true, chain := .claimed ec })
  | .claimed ec => some (s.honour ec .entering)
  | .entering => some { s with phase := .handshake, chain := .arming }
  | .arming => some { s with chain := .handshaking }
  | .handshaking => some { s with chain := .shaken ec }
  | .shaken ec => some (s.honour ec .leaving)
  | .leaving => some { s with phase := .capability, chain := .probing }
  | .probing => some { s with chain := .capability, capabilityTag := tag, storing := true }
  | .capability => some { s with chain := .probed ec }
  | .probed ec => some { s.deliver (if s.stopLatch then .stopped else .value ec) with chain := .ended }
  | .unsubmitted | .withdrawn | .ended => none

def cancellable (s : StartTls) : Bool :=
  s.chain == .starttls && s.tag == s.starttlsTag || s.chain == .capability && s.tag == s.capabilityTag

def forwarderStep (s : StartTls) (opened : Bool) : Option StartTls :=
  match s.forwarder with
  | .latch => some { s with stopLatch := true, forwarder := .phase }
  | .phase => some { s with forwarder := if s.phase = .handshake then .finished else .cancel }
  | .cancel => some { s with chain := if opened && s.cancellable then .withdrawn else s.chain, forwarder := .claim }
  | .claim =>
    some (if s.completed then { s with forwarder := .finished }
      else { s with completed := true, stopCallback := false, forwarder := .post })
  | .post => some { s with stopPosted := true, forwarder := .finished }
  | .waiting | .finished => none

end StartTls

inductive TlsAction where
  | start (tag : Tag)
  | chain (ec : Option ErrorCode) (tag : Tag)
  | storeTag
  | requestStop
  | forwarder (opened : Bool)
  | deliverStopped
  deriving DecidableEq, Repr

def StartTls.step (s : StartTls) : TlsAction → Option StartTls
  | .start tag => s.startStep tag
  | .chain ec tag => s.chainStep ec tag
  | .storeTag => if s.storing then some { s with tag := s.capabilityTag, storing := false } else none
  | .requestStop =>
    if s.stopRequested then some s
    else some { s with stopRequested := true, forwarder := if s.stopCallback then .latch
      else s.forwarder }
  | .forwarder opened => s.forwarderStep opened
  | .deliverStopped =>
      if s.stopPosted then some { s.deliver .stopped with stopPosted := false } else none

def startTls : Automaton.Machine StartTls TlsAction := ⟨{}, StartTls.step⟩

end Bkmail
