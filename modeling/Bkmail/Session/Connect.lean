import Bkmail.Command.Capability
import Bkmail.Session.Operation

namespace Bkmail

/-! `connect_operation`: the resolver, the TCP connect, the TLS handshake, and a session that is up
once its greeting and the reply to its CAPABILITY have been dispatched. -/

inductive ConnectPhase where
  | resolve | tcpConnect | handshake | session
  deriving DecidableEq, Repr

inductive GreetingKind where
  | ok | preauth | bye
  deriving DecidableEq, Repr

def greetingKindOf : UnsolicitedEvent → GreetingKind
  | .bye .. => .bye
  | .greeting status .. => if status = .preauth then .preauth else .ok
  | _ => .ok

def UnsolicitedEvent.isGreeting : UnsolicitedEvent → Bool
  | .greeting .. => true
  | _ => false

def hostUnreachable : ErrorCode := .transport 113

/-- What the receiver is completed with; a session comes with the capabilities that are cached. -/
inductive ConnectExit where
  | notAuthenticated (capabilities : CapabilitySet)
  | authenticated (capabilities : CapabilitySet)
  | logout (ec : ErrorCode)
  | stopped
  deriving DecidableEq

/-- Where `connection_` is: not made yet, in the operation, in the state that the receiver got, or
    destroyed. -/
inductive ConnectionOwner where
  | absent | operation | receiver | destroyed
  deriving DecidableEq, Repr

inductive ConnectStep where
  | resolved (ec : Option ErrorCode) (count : Nat)
  | connected (ec : Option ErrorCode)
  | shaken (ec : Option ErrorCode)
  | phaseStopped
  | greeted (event : UnsolicitedEvent)
  | probed (ec : Option ErrorCode) (capabilities : CapabilitySet)
  deriving DecidableEq

/-- The operations in flight and the steps that a thread has still to do, cut where another thread
    may come in between. `claimStopped` and `complete` are about to exchange `completed_`; `deliver`
    and `abandon` have. -/
inductive ConnectWork where
  | start | registerStop
  | resolving | openSocket | connecting | handshaking
  | check (next : ConnectStep)
  | proceed (step : ConnectStep)
  | claimStopped
  | cache (capabilities : CapabilitySet)
  | complete (ec : Option ErrorCode)
  | deliver (outcome : Delivery)
  | emplace | subscribe | submit | submitting (thread : Nat) | flush | publish
  | forward | latch | claim | abandon | stoppedPosted
  deriving DecidableEq

abbrev ConnectTask := Option Nat × ConnectWork

/-- The last three fields are history: the unsolicited events that were dispatched before there was
    a handler, those the handler was called with until the receiver was completed, and the
    completions. -/
structure Connect where
  useTls : Bool
  phase : ConnectPhase := .resolve
  stopRequested : Bool := false
  stopCallback : Bool := false
  stopLatch : Bool := false
  completed : Bool := false
  owner : ConnectionOwner := .absent
  system : System := {}
  listening : Bool := false
  probe : Option OpId := none
  capabilities : CapabilitySet := .empty
  greeting : GreetingKind := .ok
  greetingSeen : Bool := false
  tasks : List ConnectTask := [(none, .start)]
  missed : List UnsolicitedEvent := []
  heard : List UnsolicitedEvent := []
  exits : List ConnectExit := []

/-- How an operation in flight completes; `submit` is told where its cell is allocated. -/
inductive ConnectAnswer where
  | go
  | resolved (ec : Option ErrorCode) (count : Nat)
  | done (ec : Option ErrorCode)
  | stopped
  | at (addr : Nat)
  deriving DecidableEq, Repr

def Section.capabilities (core : ContextCore) : Section → CapabilitySet
  | .work (.onTagged op r) _ => (CapabilityCommand.result (core.cell op).absorbed r).2
  | _ => .empty

namespace Connect

def call (s : Connect) (c : Call) : Connect :=
  { s with system := (s.system.step (.call c)).getD s.system }

def resetConnection (s : Connect) : Connect :=
  if s.owner = .operation then { s.call .abandon with owner := .destroyed } else s

def finish (s : Connect) : Delivery → Connect
  | .value none =>
    { s with
      stopCallback := false, owner := .receiver
      exits := s.exits ++ [if s.greeting = .preauth then .authenticated s.capabilities
        else .notAuthenticated s.capabilities] }
  | .value (some ec) =>
      { s.resetConnection with stopCallback := false, exits := s.exits ++ [.logout ec] }
  | .stopped => { s.resetConnection with stopCallback := false, exits := s.exits ++ [.stopped] }

def proceed (s : Connect) : ConnectStep → Connect × List ConnectWork
  | .resolved (some ec) _ => (s, [.complete (some ec)])
  | .resolved none 0 => (s, [.complete (some hostUnreachable)])
  | .resolved none _ => ({ s with phase := .tcpConnect }, [.openSocket])
  | .connected (some ec) | .shaken (some ec) => (s, [.complete (some ec)])
  | .connected none =>
      if s.useTls then ({ s with phase := .handshake }, [.handshaking]) else (s, [.emplace])
  | .shaken none => (s, [.emplace])
  | .phaseStopped => (s, [.complete (some .operationCanceled)])
  | .greeted event =>
    if greetingKindOf event = .bye then (s, [.complete (some .serverBye)])
    else if !s.greetingSeen && event.isGreeting then
      ({ s with greetingSeen := true, greeting := greetingKindOf event }, [])
    else (s, [])
  | .probed (some ec) _ => (s, [.complete (some ec)])
  | .probed none capabilities => (s, [.cache capabilities])

def submit (s : Connect) (addr : Nat) : Option (Connect × List ConnectWork) :=
  let tag := tagText s.system.core.tagCounter
  let s := s.call .allocateTag
  (s.system.step (.call (.submit tag (.line capabilityCommand) addr true))).map fun system =>
    ({ s with system, probe := some s.system.core.made }, [.submitting s.system.threads.length])

def run (s : Connect) : ConnectWork → ConnectAnswer → Option (Connect × List ConnectWork)
  | .start, .go =>
    some (if s.stopRequested then ({ s with exits := s.exits ++ [.stopped] }, [])
      else (s, [.registerStop, .resolving]))
  | .registerStop, .go =>
      some ({ s with stopCallback := true }, if s.stopRequested then [.forward] else [])
  | .resolving, .resolved ec count => some (s, [.check (.resolved ec count)])
  | .openSocket, .done (some ec) => some (s, [.complete (some ec)])
  | .openSocket, .done none => some (s, [.connecting])
  | .connecting, .done ec => some (s, [.check (.connected ec)])
  | .handshaking, .done ec => some (s, [.check (.shaken ec)])
  | .resolving, .stopped | .connecting, .stopped | .handshaking, .stopped =>
      some (s, [.check .phaseStopped])
  | .check next, .go => some (s, [if s.stopLatch then .claimStopped else .proceed next])
  | .proceed step, .go => some (s.proceed step)
  | .claimStopped, .go =>
      some (if s.completed then (s, []) else ({ s with completed := true }, [.deliver .stopped]))
  | .cache capabilities, .go => some ({ s with capabilities }, [.complete none])
  | .complete ec, .go =>
      some (if s.completed then (s, []) else ({ s with completed := true }, [.deliver (.value ec)]))
  | .deliver outcome, .go => some (s.finish outcome, [])
  | .emplace, .go => some ({ s with owner := .operation }, [.subscribe])
  | .subscribe, .go => some ({ s with listening := true }, [.submit])
  | .submit, .at addr => s.submit addr
  | .submitting thread, .go => if s.system.threads[thread]? = some [] then some (s, [.flush]) else none
  | .flush, .go => some (s.call .flush, [.publish])
  | .publish, .go => some ({ s with phase := .session }, [])
  | .forward, .go => some (s, [if s.phase = .session then .claim else .latch])
  | .latch, .go => some ({ s with stopLatch := true }, [])
  | .claim, .go => some (if s.completed then (s, []) else ({ s with completed := true }, [.abandon]))
  | .abandon, .go =>
      some ({ s.resetConnection with listening := false, stopCallback := false }, [.stoppedPosted])
  | .stoppedPosted, .go => some ({ s with exits := s.exits ++ [.stopped] }, [])
  | _, _ => none

def handlers (s : Connect) (sec : Section) : List ConnectStep :=
  (if s.listening then sec.pushes.map .greeted else []) ++
    (sec.outcomes s.system.core).filterMap fun
      | (op, .value ec) =>
          if s.probe = some op then some (.probed ec (sec.capabilities s.system.core)) else none
      | (_, .stopped) => none

def context (s : Connect) (thread : Nat) (choice : Choice) : Option Connect :=
  if s.owner = .absent ∨ s.tasks.any (·.1 == some thread) then none
  else
    match s.system.section? (.resume thread choice), s.system.step (.resume thread choice) with
    | some sec, some system =>
      some { s with
        system
        tasks := s.tasks ++ (s.handlers sec).map fun next => (some thread, .check next)
        missed := if s.listening || s.completed then s.missed else s.missed ++ sec.pushes
        heard := if s.listening && s.exits.isEmpty then s.heard ++ sec.pushes else s.heard }
    | _, _ => none

end Connect

/-- A section of the context, a step of a thread of the operation, and the request to stop. -/
inductive ConnectAction where
  | context (thread : Nat) (choice : Choice)
  | task (k : Nat) (answer : ConnectAnswer)
  | requestStop
  deriving DecidableEq, Repr

namespace Connect

def step (s : Connect) : ConnectAction → Option Connect
  | .context thread choice => s.context thread choice
  | .task k answer =>
    match s.tasks[k]? with
    | none => none
    | some (thread, work) =>
      (s.run work answer).map fun (t, next) =>
        { t with tasks := s.tasks.eraseIdx k ++ next.map (thread, ·) }
  | .requestStop =>
    some <|
      if s.stopRequested then s
      else
        { s with
          stopRequested := true
          tasks := if s.stopCallback then s.tasks ++ [(none, .forward)] else s.tasks }

end Connect

def asyncConnect (useTls : Bool) : Automaton.Machine Connect ConnectAction := ⟨{ useTls }, Connect.step⟩

end Bkmail
