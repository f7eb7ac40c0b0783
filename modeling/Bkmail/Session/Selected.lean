import Bkmail.Session.Operation
import Bkmail.Session.Unsolicited

namespace Bkmail

/-- What the table of a selected session calls: the hook of a `selected_state`, which points to its
    mailbox, or the listener of an idle operation, here by the cell its snapshot lies in. -/
inductive Hook where
  | mailbox (cell : Nat)
  | idle (cell : Nat)
  deriving DecidableEq, Repr

def Hook.cell : Hook → Nat
  | mailbox cell | idle cell => cell

/-- Who has the snapshot and, if there is one, the token of the handler that feeds it: a selected
    state, the rebuild closure of an operation that was called or runs, an idle operation before and
    after its `start`, or the constructor of the successor, which has the counts and has yet to
    register its hook. A successor that is made inside the dispatch keeps the dispatcher busy. -/
inductive Holder where
  | selected (cell token : Nat)
  | called (cell token : Nat)
  | running (cell token : Nat)
  | idleCalled (info : MailboxInfo)
  | idling (cell token : Nat)
  | rebuilding (info : MailboxInfo) (inDispatch : Bool)
  | gone
  deriving DecidableEq, Repr

/-- The chain of states and operations that a SELECT begins. `finished` are the tokens of operations
    that have completed and are not destroyed yet, `dispatched` the pushes so far. -/
structure SelectedChain where
  table : UnsolicitedTable Hook := {}
  cells : Nat → MailboxInfo := fun _ => {}
  made : Nat := 0
  holder : Holder
  finished : List Nat := []
  dispatched : List UnsolicitedEvent := []

/-- Why a `start` ends at once. -/
inductive Refusal where
  | stopRequested
  | capabilityRequired
  deriving DecidableEq, Repr

inductive ChainAction where
  | call
  | callIdle
  | start (refusal : Option Refusal)
  | complete (inDispatch : Bool)
  | stop
  | register
  | event (event : UnsolicitedEvent)
  | destroy (token : Nat)
  deriving DecidableEq, Repr

namespace SelectedChain

def tell (event : UnsolicitedEvent) (s : SelectedChain) (hook : Hook) : SelectedChain :=
  match hook with
  | .mailbox cell => { s with cells := Function.update s.cells cell ((s.cells cell).push event) }
  | .idle cell =>
    match s.holder with
    | .idling own token =>
      if own = cell then
        let info := (s.cells cell).push event
        let s := { s with cells := Function.update s.cells cell info }
        if event.wakes
          then { s with holder := .rebuilding info true, finished := token :: s.finished } else s
      else s
    | _ => s

def notify (s : SelectedChain) (event : UnsolicitedEvent) : SelectedChain :=
  s.table.snapshot.foldl (tell event) { s with dispatched := s.dispatched ++ [event] }

def place (s : SelectedChain) (info : MailboxInfo) (hook : Nat → Hook)
    (holder : Nat → Nat → Holder) : SelectedChain :=
  { s with
    cells := Function.update s.cells s.made info
    made := s.made + 1
    table := s.table.add (hook s.made)
    holder := holder s.made s.table.nextId }

def retire (s : SelectedChain) (token : Nat) (holder : Holder) : SelectedChain :=
  { s with holder, finished := token :: s.finished }

def start (s : SelectedChain) (refusal : Option Refusal) : Option SelectedChain :=
  match s.holder, refusal with
  | .called cell token, none => some { s with holder := .running cell token }
  | .called _ token, some .stopRequested => some (s.retire token .gone)
  | .called cell token, some .capabilityRequired =>
      some (s.retire token (.rebuilding (s.cells cell) false))
  | .idleCalled info, none => some (s.place info .idle .idling)
  | .idleCalled _, some .stopRequested => some { s with holder := .gone }
  | .idleCalled info, some .capabilityRequired => some { s with holder := .rebuilding info false }
  | _, _ => none

/-- `call` is each of the queries, `store`, `copy`, `move`, `expunge`, `noop` and `capability`;
    `complete` is whatever ends an operation with a value but for a push. -/
def step (s : SelectedChain) : ChainAction → Option SelectedChain
  | .call =>
    match s.holder with
    | .selected cell token => some { s with holder := .called cell token }
    | _ => none
  | .callIdle =>
    match s.holder with
    | .selected cell token =>
        some { s with table := s.table.deactivate token, holder := .idleCalled (s.cells cell) }
    | _ => none
  | .start refusal => s.start refusal
  | .complete inDispatch =>
    match s.holder with
    | .running cell token | .idling cell token =>
        some (s.retire token (.rebuilding (s.cells cell) inDispatch))
    | _ => none
  | .stop =>
    match s.holder with
    | .running _ token | .idling _ token => some (s.retire token .gone)
    | _ => none
  | .register =>
    match s.holder with
    | .rebuilding info _ => some (s.place info .mailbox .selected)
    | _ => none
  | .event event =>
    match s.holder with
    | .rebuilding _ true => none
    | _ => some (s.notify event)
  | .destroy token =>
    if token ∈ s.finished then
      some { s with table := s.table.deactivate token, finished := s.finished.erase token }
    else none

end SelectedChain

/-- The machine of a session whose SELECT has just been answered, with `info` for its snapshot. -/
def selectedChain (info : MailboxInfo) : Automaton.Machine SelectedChain ChainAction :=
  ⟨{ holder := .rebuilding info true }, SelectedChain.step⟩

end Bkmail
