import Bkmail.Command.Directives
import Bkmail.Session.Operation

namespace Bkmail

/-! The states of a session with the methods of each, and what a server that keeps a state of its
own makes of the commands that they send. `start_tls` is an operation of another kind: it ends the
context. -/

inductive SessionState where
  | notAuthenticated
  | authenticated
  | selected (mailbox : Bytes)
  | logout
  deriving DecidableEq, Repr

inductive Level where
  | any
  | notAuthenticated
  | authenticated
  | selected
  deriving DecidableEq, Repr

inductive Method where
  | login (c : LoginCommand)
  | authenticate (c : AuthenticateCommand)
  | append (c : AppendCommand)
  | idle
  | directive (d : Directive)
  deriving DecidableEq, Repr

namespace Method

def request : Method → Request
  | login c => .login c
  | authenticate c => .authenticate c
  | append c => .append c
  | idle => .idle
  | directive d => .line d.command

def requiredCapability : Method → Bytes
  | directive (.move ..) => ascii "MOVE"
  | _ => []

def operation : Method → OperationKind
  | idle => .idleOp
  | method => .stateOp method.request method.requiredCapability

theorem operation_request (method : Method) : method.operation.request = method.request := by
  cases method <;> rfl

theorem idle_of_operation (method : Method) (idle : method.operation = .idleOp) : method = .idle := by
  cases method <;> first | rfl | cases idle

def level? : Method → Option Level
  | login _ | authenticate _ => some .notAuthenticated
  | append _ => some .authenticated
  | idle => some .selected
  | directive .capability | directive .noop | directive .logout => some .any
  | directive .starttls => none
  | directive (.create _) | directive (.delete _) | directive (.subscribe _) | directive
      (.unsubscribe _)
  | directive (.select _) | directive (.examine _) | directive (.rename ..) | directive (.list ..)
  | directive (.status ..) => some .authenticated
  | directive _ => some .selected

/-- `auth_branches`, `select_branches`, `close_successor`, `logout_successor`, and for all the
    others the factories that rebuild the state they were called on. -/
def successor (state : SessionState) (ok : Bool) : Method → SessionState
  | login _ | authenticate _ => if ok then .authenticated else .notAuthenticated
  | directive (.select mailbox) | directive (.examine mailbox) =>
      if ok then .selected mailbox else .authenticated
  | directive .close => .authenticated
  | directive .logout => .logout
  | _ => state

def handsOn (state : SessionState) (method : Method) : Exit → Option SessionState
  | .result ec => some (method.successor state ec.isNone)
  | .capabilityRequired => some (method.successor state false)
  | .woken => some (method.successor state true)
  | .stopped => none

end Method

namespace SessionState

def level? : SessionState → Option Level
  | notAuthenticated => some .notAuthenticated
  | authenticated => some .authenticated
  | selected _ => some .selected
  | logout => none

def offers (state : SessionState) (method : Method) : Bool :=
  state.level?.any fun own => method.level? == some .any || method.level? == some own

end SessionState

inductive Demand where
  | login | authenticate | append | idle
  | order (order : Order)
  deriving DecidableEq, Repr

def Method.demand : Method → Demand
  | login _ => .login
  | authenticate _ => .authenticate
  | append _ => .append
  | idle => .idle
  | directive d => .order d.order

/-- The state from which on the server takes a command; IDLE is one for the authenticated state. -/
def Demand.level : Demand → Level
  | login | authenticate | order (.plain .starttls) => .notAuthenticated
  | append | idle | order (.naming ..) | order (.status ..) => .authenticated
  | order (.plain .capability) | order (.plain .noop) | order (.plain .logout) => .any
  | order _ => .selected

inductive ServerState where
  | notAuthenticated
  | authenticated
  | selected (mailbox : Bytes)
  | logout
  deriving DecidableEq, Repr

namespace ServerState

def permits (server : ServerState) (demand : Demand) : Bool :=
  match server with
  | notAuthenticated => demand.level == .any || demand.level == .notAuthenticated
  | authenticated => demand.level == .any || demand.level == .authenticated
  | selected _ => demand.level != .notAuthenticated
  | logout => false

def after (server : ServerState) (ok : Bool) : Demand → ServerState
  | .login | .authenticate => if ok then authenticated else server
  | .order (.naming .select [mailbox]) | .order (.naming .examine [mailbox]) =>
    if ok then selected mailbox else authenticated
  | .order (.plain .close) => if ok then authenticated else server
  | .order (.plain .logout) => if ok then logout else server
  | _ => server

@[simp] theorem after_idle (server : ServerState) (ok : Bool) :
    server.after ok Method.idle.demand = server := rfl

end ServerState

/-- The state that the server must be in for the client's state to be right. A CLOSE that fails
    leaves a mailbox selected, and the client goes on without it. -/
def SessionState.Matches : SessionState → ServerState → Prop
  | notAuthenticated, server => server = .notAuthenticated
  | authenticated, server => server = .authenticated ∨ ∃ mailbox, server = .selected mailbox
  | selected mailbox, server => server = .selected mailbox
  | logout, _ => True

theorem Method.demand_level {method : Method} {level : Level} (declared : method.level? = some level) :
    method.demand.level = level ∨ level = .selected ∧ method.demand.level = .authenticated := by
  cases method with
  | idle => exact .inr ⟨(Option.some.inj declared).symm, rfl⟩
  | directive d =>
    left
    cases d <;> first | exact Option.some.inj declared | cases declared
  | _ => exact .inl (Option.some.inj declared)

namespace SessionState

variable {state : SessionState} {server : ServerState} {method : Method}

theorem offers_level (offered : state.offers method = true) :
    ∃ own level, state.level? = some own ∧ method.level? = some level ∧
    (level = .any ∨ level = own) := by
  obtain ⟨own, here, offered⟩ := (Option.any_eq_true _ _).mp offered
  rcases Bool.or_eq_true_iff.mp offered with declared | declared
  · exact ⟨own, .any, here, eq_of_beq declared, .inl rfl⟩
  · exact ⟨own, own, here, eq_of_beq declared, .inr rfl⟩

theorem Matches.permits (matched : state.Matches server) (offered : state.offers method = true) :
    server.permits method.demand = true := by
  obtain ⟨own, level, here, declared, fits⟩ := offers_level offered
  have same := Method.demand_level declared
  cases state with
  | logout => cases here
  | notAuthenticated =>
    cases here
    cases (matched : server = _)
    rcases fits with rfl | rfl <;> simp_all [ServerState.permits]
  | authenticated =>
    cases here
    rcases matched with rfl | ⟨mailbox,
      rfl⟩ <;> rcases fits with rfl | rfl <;> simp_all [ServerState.permits]
  | selected mailbox =>
    cases here
    cases (matched : server = _)
    rcases fits with rfl | rfl
    · simp_all [ServerState.permits]
    · rcases same with same | ⟨-, same⟩ <;> simp [ServerState.permits, same]

/-- The state that a method leads to is right behind the reply. -/
theorem Matches.after (matched : state.Matches server) (offered : state.offers method = true)
    (ok : Bool) :
    (method.successor state ok).Matches (server.after ok method.demand) := by
  cases method with
  | login c | authenticate c =>
    cases state with
    | notAuthenticated =>
      cases (matched : server = _)
      cases ok
      · rfl
      · exact .inl rfl
    | _ => cases offered
  | directive d =>
    cases d with
    | select mailbox | examine mailbox =>
      cases ok
      · exact .inl rfl
      · rfl
    | close =>
      cases state with
      | selected mailbox =>
        cases (matched : server = _)
        cases ok
        · exact .inr ⟨mailbox, rfl⟩
        · exact .inl rfl
      | _ => cases offered
    | logout => exact True.intro
    | _ => exact matched
  | _ => exact matched

theorem Matches.refused (matched : state.Matches server) (offered : state.offers method = true) :
    (method.successor state false).Matches server := by
  cases method with
  | login c | authenticate c =>
    cases state with
    | notAuthenticated => exact matched
    | _ => cases offered
  | directive d =>
    cases d with
    | select mailbox | examine mailbox =>
      cases state with
      | authenticated => exact matched
      | _ => cases offered
    | close =>
      cases state with
      | selected mailbox => exact .inr ⟨mailbox, matched⟩
      | _ => cases offered
    | logout => exact True.intro
    | _ => exact matched
  | _ => exact matched

end SessionState

theorem ServerState.permits_idle {server : ServerState} {demand : Demand} {ok : Bool}
    (permitted : server.permits .idle = true) (stays : server.after ok demand ≠ .logout) :
    (server.after ok demand).permits .idle = true := by
  have selects (mailbox : Bytes) :
      (if ok then selected mailbox else authenticated).permits .idle = true := by
    cases ok <;> rfl
  have enters : (if ok then authenticated else server).permits .idle = true := by
    cases ok
    · exact permitted
    · rfl
  unfold after at stays ⊢
  split
  · exact enters
  · exact enters
  · exact selects _
  · exact selects _
  · exact enters
  · cases ok
    · exact permitted
    · exact absurd rfl stays
  · exact permitted

end Bkmail
