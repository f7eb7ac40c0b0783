import Bkmail.Context.Vouched
import Bkmail.Session.Completion
import Bkmail.Session.States

namespace Bkmail

open Automaton

/-! A session and its server: the operations follow one another on one context, each on the state
that the one before it has handed on, and the server goes through states of its own. -/

/-- The server answers the commands one by one, in the order in which it has begun to read them.
    What it has said is on its way to the client. -/
structure Peer where
  state : ServerState
  heard : Nat := 0
  waiting : List OpId := []
  answers : List (OpId × TaggedResponse) := []
  said : List Bytes := []

/-- `method` is what `state` was consumed by; the cells that were made belong to `methods`, in their
    order. -/
structure Dialogue where
  session : Session
  state : SessionState
  method : Method
  methods : List Method := []
  peer : Peer

inductive DialogueAction where
  | inside (action : SessionAction)
  | call (method : Method) (capabilities : List Bytes)
  | hear
  | answer (r : TaggedResponse) (text : Bytes)
  | say (text : Bytes)
  deriving DecidableEq, Repr

namespace SessionAction

def texts : SessionAction → List Bytes
  | context (.resume _ (.data texts)) => texts
  | _ => []

def submits : SessionAction → Bool
  | context (.call (.submit ..)) => true
  | _ => false

end SessionAction

namespace Dialogue

def system (d : Dialogue) : System := d.session.system

def core (d : Dialogue) : ContextCore := d.session.system.core

def inside (d : Dialogue) (action : SessionAction) : Option Dialogue :=
  if action.submits = false ∧ action.texts.isPrefixOf d.peer.said = true then
    (d.session.step action).map fun session =>
      { d with
        session
        methods := if session.system.core.made = d.core.made then d.methods else d.methods ++ [d.method]
        peer := { d.peer with said := d.peer.said.drop action.texts.length } }
  else none

/-- The receiver calls a method of the state it was handed, and starts the operation. Until `start`
    has returned, it goes on with the connection that was handed on. -/
def call (d : Dialogue) (method : Method) (capabilities : List Bytes) : Option Dialogue :=
  if d.session.op.step = .returned then
    (d.session.op.exits.head?.bind (d.method.handsOn d.state)).bind fun state =>
      if state.offers method = true then
        some { d with session := { d.session with op := { kind := method.operation, capabilities } }, state, method }
      else none
  else none

def hear (d : Dialogue) : Option Dialogue :=
  d.core.stream[d.peer.heard]?.map fun segment =>
    { d with
      peer := { d.peer with
        heard := d.peer.heard + 1
        waiting := if segment.1 ∈ d.peer.waiting ++ d.peer.answers.map Prod.fst then d.peer.waiting
          else d.peer.waiting ++ [segment.1] } }

def answer (d : Dialogue) (r : TaggedResponse) (text : Bytes) : Option Dialogue :=
  match d.peer.waiting with
  | [] => none
  | op :: waiting =>
    if d.peer.state ≠ .logout ∧ r.tag = (d.core.cell op).tag ∧ Parser.parse text = some (.tagged r) then
      d.methods[op]?.map fun method =>
        { d with
          peer := { d.peer with
            state := d.peer.state.after (decide (r.status = .ok)) method.demand
            waiting
            answers := d.peer.answers ++ [(op, r)]
            said := d.peer.said ++ [text] } }
    else none

def say (d : Dialogue) (text : Bytes) : Option Dialogue :=
  match Parser.parse text with
  | some (.tagged _) => none
  | _ => some { d with peer := { d.peer with said := d.peer.said ++ [text] } }

def step (d : Dialogue) : DialogueAction → Option Dialogue
  | .inside action => d.inside action
  | .call method capabilities => d.call method capabilities
  | .hear => d.hear
  | .answer r text => d.answer r text
  | .say text => d.say text

end Dialogue

/-- A session on a new connection whose greeting has left the server in the state `server`. -/
def dialogue (server : ServerState) (state : SessionState) (method : Method) (capabilities : List Bytes) :
    Machine Dialogue DialogueAction :=
  ⟨{ session := { op := { kind := method.operation, capabilities } }, state, method, peer := { state := server } },
    Dialogue.step⟩

namespace StateOperation

theorem handled {op : StateOperation} {cell : OpId} (handles : op.handles cell = true) :
    ∃ tag, op.command = some (tag, cell) := by
  rw [StateOperation.handles] at handles
  cases command : op.command with
  | none => simp [command] at handles
  | some own =>
    rw [command] at handles
    exact ⟨own.1, by rw [← eq_of_beq handles]⟩

/-- Nothing is submitted before the step that does it, an operation that was refused has submitted
    nothing, and only an IDLE listens, has a timer or is woken. -/
structure Poised (op : StateOperation) : Prop where
  fresh : op.step = .entry ∨ op.step = .listen ∨ op.step = .submit → op.command = none
  refused : .capabilityRequired ∈ op.exits → op.step = .returned ∧ op.command = none
  armed : op.listening = true ∨ op.timer = true ∨ op.step = .listen ∨ op.step = .armTimer ∨
    .woken ∈ op.exits → op.kind = .idleOp

theorem Poised.unstarted (kind : OperationKind) (capabilities : List Bytes) :
    Poised { kind, capabilities } := by
  refine ⟨fun _ => rfl, fun refused => ?_, fun armed => ?_⟩
  · cases refused
  · rcases armed with armed | armed | armed | armed | armed <;> cases armed

theorem Poised.same {op next : StateOperation} (poised : op.Poised) (step : next.step = op.step)
    (command : next.command = op.command) (kind : next.kind = op.kind)
    (listening : next.listening = true → op.listening = true)
    (timer : next.timer = true → op.timer = true)
    (refused : .capabilityRequired ∈ next.exits → .capabilityRequired ∈ op.exits)
    (woken : .woken ∈ next.exits → op.kind = .idleOp) : next.Poised := by
  refine ⟨?_, ?_, ?_⟩
  · rw [step, command]
    exact poised.fresh
  · rw [step, command]
    exact poised.refused ∘ refused
  · rw [step, kind]
    rintro (listens | times | there | there | awake)
    · exact poised.armed (.inl (listening listens))
    · exact poised.armed (.inr (.inl (timer times)))
    · exact poised.armed (.inr (.inr (.inl there)))
    · exact poised.armed (.inr (.inr (.inr (.inl there))))
    · exact woken awake

theorem Poised.advances {op next : StateOperation} (poised : op.Poised) (inside : op.step ≠ .returned)
    (command : next.command = op.command) (kind : next.kind = op.kind) (exits : next.exits = op.exits)
    (early : next.step = .entry ∨ next.step = .listen ∨ next.step = .submit → op.command = none)
    (armed : next.listening = true ∨ next.timer = true ∨ next.step = .listen ∨ next.step = .armTimer →
      op.listening = true ∨ op.timer = true ∨ op.kind = .idleOp) : next.Poised := by
  refine ⟨fun before => command.trans (early before), ?_, ?_⟩
  · rw [exits]
    exact fun refused => absurd (poised.refused refused).1 inside
  · rw [exits, kind]
    have idle (held : op.listening = true ∨ op.timer = true ∨ op.kind = .idleOp) :
        op.kind = .idleOp := by
      rcases held with listens | times | idle
      · exact poised.armed (.inl listens)
      · exact poised.armed (.inr (.inl times))
      · exact idle
    rintro (listens | times | there | there | woken)
    · exact idle (armed (.inl listens))
    · exact idle (armed (.inr (.inl times)))
    · exact idle (armed (.inr (.inr (.inl there))))
    · exact idle (armed (.inr (.inr (.inr there))))
    · exact poised.armed (.inr (.inr (.inr (.inr woken))))

theorem Poised.passes {op next : StateOperation} (poised : op.Poised) (inside : op.step ≠ .returned)
    (command : next.command = op.command) (kind : next.kind = op.kind) (exits : next.exits = op.exits)
    (listening : next.listening = op.listening) (timer : next.timer = op.timer)
    (late : next.step ≠ .entry ∧ next.step ≠ .listen ∧ next.step ≠ .submit ∧
    next.step ≠ .armTimer) : next.Poised := by
  obtain ⟨entry, listen, submit, armTimer⟩ := late
  refine poised.advances inside command kind exits ?_ ?_
  · rintro (early | early | early)
    · exact absurd early entry
    · exact absurd early listen
    · exact absurd early submit
  · rw [listening, timer]
    rintro (listens | times | there | there)
    · exact .inl listens
    · exact .inr (.inl times)
    · exact absurd there listen
    · exact absurd there armTimer

theorem Poised.ends {op next : StateOperation} (poised : op.Poised) (here : op.step = .entry)
    (command : next.command = op.command) (kind : next.kind = op.kind) (step : next.step = .returned)
    (listening : next.listening = op.listening) (timer : next.timer = op.timer)
    (woken : .woken ∈ next.exits → .woken ∈ op.exits) : next.Poised := by
  refine ⟨?_, fun _ => ⟨step, command.trans (poised.fresh (.inl here))⟩, ?_⟩
  · rw [step]
    rintro (early | early | early) <;> cases early
  · rw [kind, step, listening, timer]
    rintro (listens | times | there | there | awake)
    · exact poised.armed (.inl listens)
    · exact poised.armed (.inr (.inl times))
    · cases there
    · cases there
    · exact poised.armed (.inr (.inr (.inr (.inr (woken awake)))))

end StateOperation

namespace Session

variable {known : TaggedResponse → Prop} {told : OpId → Option ErrorCode → Prop} {s t u : Session}

/-- A turn of the operation or of the context that submits nothing. `told` are the results that it
    may hand to the operation. -/
structure Turns (known : TaggedResponse → Prop) (told : OpId → Option ErrorCode → Prop)
    (s t : Session) : Prop where
  keeps : imapContext.Reachable s.system → s.system.Keeps known t.system
  kind : t.op.kind = s.op.kind
  command : t.op.command = s.op.command
  poised : s.op.Poised → t.op.Poised
  results : ∀ ec, .result ec ∈ t.op.exits →
    .result ec ∈ s.op.exits ∨ ∃ cell, s.op.handles cell = true ∧ told cell ec

namespace Turns

theorem refl (s : Session) : Turns known told s s := ⟨.refl, rfl, rfl, id, fun _ => .inl⟩

theorem trans (first : Turns known told s t) (second : Turns known told t u) :
    Turns known told s u where
  keeps reached := (first.keeps reached).trans (second.keeps (first.keeps reached).reached)
  kind := second.kind.trans first.kind
  command := second.command.trans first.command
  poised := second.poised ∘ first.poised
  results ec member := by
    rcases second.results ec member with old | ⟨cell, handles, delivered⟩
    · exact first.results ec old
    · rw [StateOperation.handles, first.command] at handles
      exact .inr ⟨cell, handles, delivered⟩

theorem own (system : t.system = s.system) (kind : t.op.kind = s.op.kind)
    (command : t.op.command = s.op.command)
    (poised : s.op.Poised → t.op.Poised)
    (results : ∀ ec, .result ec ∈ t.op.exits → .result ec ∈ s.op.exits) :
    Turns known told s t :=
  ⟨fun reached => by rw [system]; exact .refl reached, kind, command, poised, fun ec member => .inl (results ec member)⟩

end Turns

theorem call_keeps {c : Call} (minds : Minds known (.call c))
    (reached : imapContext.Reachable s.system) :
    s.system.Keeps known (s.call c).system := by
  rw [call]
  cases stepped : s.system.step (.call c) with
  | none => exact .refl reached
  | some system => exact .step reached minds stepped

theorem cancel_keeps (reached : imapContext.Reachable s.system) :
    s.system.Keeps known s.cancel.system :=
  call_keeps (c := .cancel s.op.tag) True.intro reached

theorem wake_turns (armed : s.op.listening = true ∨ s.op.timer = true) : Turns known told s s.wake := by
  unfold wake
  split
  · exact .refl s
  · refine ⟨cancel_keeps (s := { s with op := { s.op with completed := true } }), rfl, rfl, ?_, ?_⟩
    · intro poised
      have idle : s.op.kind = .idleOp := poised.armed (armed.imp_right .inl)
      refine poised.same rfl rfl rfl id (fun timer => by cases timer) ?_ fun _ => idle
      simp [cancel, call, StateOperation.exit, StateOperation.cleanup]
    · intro ec member
      left
      simpa [cancel, call, StateOperation.exit, StateOperation.cleanup] using member

theorem stopForwarder_turns : Turns known told s s.stopForwarder := by
  unfold stopForwarder
  split
  · exact .refl s
  · refine ⟨cancel_keeps (s := { s with op := { s.op with completed := true } }), rfl, rfl, ?_,
      fun ec => .inl⟩
    intro poised
    exact poised.same rfl rfl rfl id (fun timer => by cases timer) id fun woken =>
      poised.armed (.inr (.inr (.inr (.inr woken))))

theorem onUnsolicited_turns (event : UnsolicitedEvent) :
    Turns known told s (s.onUnsolicited event) := by
  unfold onUnsolicited
  split
  · next wakes => exact wake_turns (.inl (Bool.and_eq_true_iff.mp wakes).1)
  · exact .refl s

theorem onDelivery_turns {delivery : OpId × Delivery}
    (delivered : ∀ ec, delivery.2 = .value ec → told delivery.1 ec) :
    Turns known told s (s.onDelivery delivery) := by
  obtain ⟨cell, ec | _⟩ := delivery
  · rw [onDelivery]
    split
    · next handles =>
      rw [StateOperation.onResult]
      split
      · exact .refl s
      · refine ⟨.refl, rfl, rfl, ?_, ?_⟩
        · intro poised
          refine poised.same rfl rfl rfl id (fun timer => by cases timer) ?_ ?_
          · simp [StateOperation.exit, StateOperation.cleanup]
          · intro woken
            refine poised.armed (.inr (.inr (.inr (.inr ?_))))
            simpa [StateOperation.exit, StateOperation.cleanup] using woken
        · intro ec' member
          rcases List.mem_append.mp member with old | new
          · exact .inl old
          · cases List.mem_singleton.mp new
            exact .inr ⟨cell, handles, delivered ec rfl⟩
    · exact .refl s
  · exact .refl s

def tells (s : Session) : SessionAction → OpId → Option ErrorCode → Prop
  | .context action, cell, ec =>
    ∃ sec, s.system.section? action = some sec ∧ (cell, .value ec) ∈ sec.outcomes s.system.core
  | _, _, _ => False

theorem context_turns {action : Action} (minds : Minds known action)
    (stepped : s.context action = some t) :
    Turns known (s.tells (.context action)) s t := by
  unfold context at stepped
  split at stepped
  · next sec system selected moved =>
    cases stepped
    have base : Turns known (s.tells (.context action)) s { s with system } :=
      ⟨fun reached => .step reached minds moved, rfl, rfl, id, fun _ => .inl⟩
    have folded {ι : Type} (react : Session → ι → Session) {items : List ι} {u : Session}
        (before : Turns known (s.tells (.context action)) s u)
        (turn : ∀ item ∈ items, ∀ v : Session,
          Turns known (s.tells (.context action)) v (react v item)) :
        Turns known (s.tells (.context action)) s (items.foldl react u) := by
      induction items generalizing u with
      | nil => exact before
      | cons item items ih =>
        exact ih (before.trans (turn item List.mem_cons_self u)) fun other member =>
          turn other (List.mem_cons_of_mem item member)
    refine folded _ (folded _ base fun event _ v =>
      onUnsolicited_turns event) fun delivery member v => ?_
    refine onDelivery_turns fun ec value => ⟨sec, selected, ?_⟩
    rw [← value]
    exact member
  · cases stepped

structure Submits (known : TaggedResponse → Prop) (s t : Session) : Prop where
  adds : imapContext.Reachable s.system →
    ∃ u, s.system.Keeps known u ∧ u.Adds known s.op.kind.request t.system
  kind : t.op.kind = s.op.kind
  unsubmitted : s.op.Poised → s.op.command = none
  command : ∃ tag, t.op.command = some (tag, s.system.core.made)
  poised : s.op.Poised → t.op.Poised
  exits : t.op.exits = s.op.exits

theorem submit_submits {addr : Nat} (here : s.op.step = .submit)
    (submitted : s.touch.submit addr = some t) :
    Submits known s t := by
  unfold submit at submitted
  obtain ⟨system, stepped, rfl⟩ := Option.map_eq_some_iff.mp submitted
  have unsubmitted (poised : s.op.Poised) : s.op.command = none := poised.fresh (.inr (.inr here))
  have keeps (reached : imapContext.Reachable s.system) :
    s.system.Keeps known (s.touch.call .allocateTag).system :=
    call_keeps (s := s.touch) (c := .allocateTag) True.intro reached
  have made : (s.touch.call .allocateTag).system.core.made = s.system.core.made := rfl
  refine ⟨fun reached => ⟨_, keeps reached, .step (keeps reached).reached stepped⟩, rfl, unsubmitted,
    ⟨_, by rw [← made]⟩, ?_, rfl⟩
  intro poised
  refine ⟨fun early => ?_, fun refused => ?_, fun armed => ?_⟩
  · rcases early with early | early | early <;> cases early
  · have returned := (poised.refused refused).1
    cases here.symm.trans returned
  · rcases armed with listens | times | there | there | woken
    · exact poised.armed (.inl listens)
    · exact poised.armed (.inr (.inl times))
    · cases there
    · cases there
    · exact poised.armed (.inr (.inr (.inr (.inr woken))))

theorem start_turns {addr : Nat} (stepped : s.start addr = some t) :
    Turns known told s t ∨ Submits known s t := by
  unfold start at stepped
  split at stepped
  · next here =>
    left
    cases stepped
    split
    · refine .own rfl rfl rfl (fun poised => poised.ends here rfl rfl rfl rfl rfl ?_) ?_ <;>
        simp [goTo, StateOperation.exit]
    · split
      · refine .own rfl rfl rfl (fun poised => poised.ends here rfl rfl rfl rfl rfl ?_) ?_ <;>
          simp [goTo, StateOperation.exit]
      · refine .own rfl rfl rfl (fun poised => ?_) fun ec => id
        refine poised.advances (by simp [here]) rfl rfl rfl (fun _ => poised.fresh (.inl here)) ?_
        rintro (listens | times | there | there)
        · exact .inl listens
        · exact .inr (.inl times)
        · right
          right
          by_contra other
          simp [goTo, StateOperation.isIdle, other] at there
        · simp only [goTo] at there
          split at there <;> cases there
  · next here =>
    left
    cases stepped
    refine .own rfl rfl rfl (fun poised => ?_) fun ec => id
    exact poised.advances (by simp [here]) rfl rfl rfl (fun _ =>
      poised.fresh (.inr (.inl here))) fun _ =>
      .inr (.inr (poised.armed (.inr (.inr (.inl here)))))
  · next here => exact .inr (submit_submits here stepped)
  · next thread here =>
    left
    split at stepped
    · cases stepped
      refine .own rfl rfl rfl (fun poised => ?_) fun ec => id
      exact poised.passes (by simp [here]) rfl rfl rfl rfl rfl (by simp [goTo])
    · cases stepped
  · next here =>
    left
    cases stepped
    refine .own rfl rfl rfl (fun poised => ?_) fun ec => id
    exact poised.passes (by simp [here]) rfl rfl rfl rfl rfl (by simp [goTo])
  · next here =>
    left
    cases stepped
    refine ⟨fun reached => call_keeps (s := s.touch) (c := .flush) True.intro reached, rfl, rfl,
      fun poised => ?_, fun ec => .inl⟩
    refine poised.advances (by simp [here]) rfl rfl rfl ?_ ?_
    · simp only [goTo]
      split <;> simp
    · rintro (listens | times | there | there)
      · exact .inl listens
      · exact .inr (.inl times)
      · simp only [goTo] at there
        split at there <;> cases there
      · right
        right
        by_contra other
        simp [goTo, StateOperation.isIdle, touch, StateOperation.touch, call, other] at there
  · next here =>
    left
    cases stepped
    refine .own rfl rfl rfl (fun poised => ?_) fun ec => id
    refine poised.advances (by simp [here]) rfl rfl rfl ?_ fun _ =>
      .inr (.inr (poised.armed (.inr (.inr (.inr (.inl here))))))
    simp [goTo]
  · next here =>
    left
    cases stepped
    have registered :
        Turns known told s
        ({ s with op := { s.op.touch with stopCallback := true } }.goTo .engageStop) := by
      refine .own rfl rfl rfl (fun poised => ?_) fun ec => id
      exact poised.passes (by simp [here]) rfl rfl rfl rfl rfl (by simp [goTo])
    split
    · exact registered.trans stopForwarder_turns
    · exact registered
  · next here =>
    left
    cases stepped
    refine .own rfl rfl rfl (fun poised => ?_) fun ec => id
    exact poised.passes (by simp [here]) rfl rfl rfl rfl rfl (by simp [goTo])
  · cases stepped

theorem step_turns {action : SessionAction} (foreign : action.submits = false)
    (read : ∀ text ∈ action.texts, ∀ r, Parser.parse text = some (.tagged r) → known r)
    (stepped : s.step action = some t) : Turns known (s.tells action) s t ∨ Submits known s t := by
  cases action with
  | context action =>
    refine .inl (context_turns ?_ stepped)
    cases action with
    | call c => cases c <;> first | exact True.intro | cases foreign
    | resume i choice => cases choice <;> first | exact True.intro | exact read
  | start addr => exact start_turns stepped
  | requestStop =>
    left
    rw [step] at stepped
    have requested :
        Turns known (s.tells .requestStop) s
        { s with op := { s.op with stopRequested := true } } := by
      refine .own rfl rfl rfl (fun poised => ?_) fun ec => id
      exact poised.same rfl rfl rfl id id id fun woken => poised.armed (.inr (.inr (.inr (.inr woken))))
    split at stepped
    · cases stepped
      exact .refl _
    · cases stepped
      split
      · exact requested.trans stopForwarder_turns
      · exact requested
  | heartbeat =>
    left
    rw [step] at stepped
    split at stepped
    · next timer =>
      cases stepped
      exact wake_turns (.inr timer)
    · cases stepped
  | deliverStopped =>
    left
    rw [step] at stepped
    split at stepped
    · cases stepped
      refine .own rfl rfl rfl (fun poised => ?_) ?_
      · refine poised.same rfl rfl rfl id id ?_ fun woken => poised.armed (.inr (.inr (.inr (.inr ?_))))
        · simp [StateOperation.exit]
        · simpa [StateOperation.exit] using woken
      · simp [StateOperation.exit]
    · cases stepped

end Session

namespace Dialogue

def known (d : Dialogue) (r : TaggedResponse) : Prop := ∃ op, (op, r) ∈ d.peer.answers

def Live (d : Dialogue) (op : OpId) (method : Method) : Prop :=
  d.methods[op]? = some method ∧ (∀ r, (op, r) ∉ d.peer.answers) ∧ Begun d.core d.system.pending op

/-- The two parties are in step. Of the commands that the server may still execute only one changes
    its state, and that is the current one as long as the connection is up; then the server is in
    the state that this one was called on, or, behind its reply, in the one that this leads to. -/
structure InStep (d : Dialogue) : Prop where
  reached : imapContext.Reachable d.system
  count : d.methods.length = d.core.made
  requests : ∀ op m, d.methods[op]? = some m → (d.core.cell op).request = m.request
  vouched : Vouched d.known d.core d.system.pending
  said : ∀ text ∈ d.peer.said, ∀ r, Parser.parse text = some (.tagged r) → d.known r
  answers : ∀ op r, (op, r) ∈ d.peer.answers → op < d.core.made ∧ (d.core.cell op).tag = r.tag
  waiting : ∀ op ∈ d.peer.waiting, d.core.sent op ≠ [] ∧ ∀ r, (op, r) ∉ d.peer.answers
  queue : d.peer.waiting.Nodup
  poised : d.session.op.Poised
  kind : d.session.op.kind = d.method.operation
  command : ∀ tag cell, d.session.op.command = some (tag, cell) → d.methods[cell]? = some d.method
  offered : d.state.offers d.method = true
  permitted : d.peer.state ≠ .logout → ∀ op m, d.Live op m → d.peer.state.permits m.demand = true
  single : ∀ p m q n, d.Live p m → d.Live q n → m ≠ .idle → n ≠ .idle → p = q
  current : d.core.phase = .opened → ∀ op m, d.Live op m → m ≠ .idle →
    ∃ tag, d.session.op.command = some (tag, op)
  before : d.core.phase = .opened →
    (∀ tag cell r, d.session.op.command = some (tag, cell) → (cell, r) ∉ d.peer.answers) →
    d.state.Matches d.peer.state
  behind : d.core.phase = .opened → ∀ tag cell r, d.session.op.command = some (tag, cell) →
    (cell, r) ∈ d.peer.answers →
    (d.method.successor d.state (decide (r.status = .ok))).Matches d.peer.state
  results : d.core.phase = .opened → ∀ ec, .result ec ∈ d.session.op.exits →
    ∃ tag cell r, d.session.op.command = some (tag, cell) ∧ (cell, r) ∈ d.peer.answers ∧
    ec = mapStatusToEc r.status

theorem concat_cases {α : Type} {xs : List α} {x y : α} {i : Nat} (here : (xs ++ [x])[i]? = some y) :
    xs[i]? = some y ∨ i = xs.length ∧ y = x := by
  rcases Nat.lt_or_ge i xs.length with inside | outside
  · rw [List.getElem?_append_left inside] at here
    exact .inl here
  · rw [List.getElem?_append_right outside, List.getElem?_singleton] at here
    split at here
    · next zero => exact .inr ⟨Nat.le_antisymm (Nat.le_of_sub_eq_zero zero) outside,
        (Option.some.inj here).symm⟩
    · cases here

theorem Live.answered {d : Dialogue} {peer : Peer} {p op : OpId} {r : TaggedResponse} {m : Method}
    (answers : peer.answers = d.peer.answers ++ [(op, r)]) (live : Live { d with peer } p m) :
    d.Live p m ∧ p ≠ op := by
  obtain ⟨here, unanswered, begun⟩ := live
  replace unanswered (q : TaggedResponse) : (p, q) ∉ d.peer.answers ++ [(op, r)] :=
    answers ▸ unanswered q
  refine ⟨⟨here, fun q member => unanswered q (List.mem_append_left _ member), begun⟩, fun same => ?_⟩
  exact unanswered r (List.mem_append_right _ (List.mem_singleton.mpr (same ▸ rfl)))

namespace InStep

variable {d : Dialogue}

theorem bound (inStep : d.InStep) {op : OpId} {m : Method} (made : d.methods[op]? = some m) :
    op < d.core.made :=
  inStep.count ▸ (List.getElem?_eq_some_iff.mp made).1

theorem unsubmitted (inStep : d.InStep) (opened : d.core.phase = .opened)
    (none : d.session.op.command = none) :
    d.state.Matches d.peer.state ∧ ∀ op m, d.Live op m → m = .idle := by
  refine ⟨inStep.before opened fun tag cell r command => ?_, fun op m live => ?_⟩
  · cases none.symm.trans command
  · by_contra changes
    obtain ⟨tag, command⟩ := inStep.current opened op m live changes
    cases none.symm.trans command

theorem executed_own (inStep : d.InStep) {op cell : OpId} {method : Method} {tag : Tag}
    (executed : d.Live op method)
    (opened : d.core.phase = .opened) (changes : method ≠ .idle)
    (command : d.session.op.command = some (tag, cell)) :
    cell = op := by
  obtain ⟨_, again⟩ := inStep.current opened op method executed changes
  cases command.symm.trans again
  rfl

theorem permitted_behind (inStep : d.InStep) {op p : OpId} {method m : Method} {ok : Bool}
    (executed : d.Live op method)
    (up : d.peer.state ≠ .logout) (stays : d.peer.state.after ok method.demand ≠ .logout)
    (live : d.Live p m)
    (other : p ≠ op) : (d.peer.state.after ok method.demand).permits m.demand = true := by
  have permitted := inStep.permitted up p m live
  by_cases idle : method = .idle
  · rw [idle, ServerState.after_idle]
    exact permitted
  · have same : m = .idle := by
      by_contra changes
      exact other (inStep.single p m op method live executed changes idle)
    subst same
    exact ServerState.permits_idle permitted stays

theorem current_behind (inStep : d.InStep) {op : OpId} {method : Method} {tag : Tag}
    (executed : d.Live op method)
    (opened : d.core.phase = .opened) (command : d.session.op.command = some (tag, op)) (ok : Bool) :
    (d.method.successor d.state ok).Matches (d.peer.state.after ok method.demand) := by
  have matched : d.state.Matches d.peer.state :=
      inStep.before opened fun tag' cell q again answered => by
    cases command.symm.trans again
    exact executed.2.1 q answered
  have same : method = d.method :=
    Option.some.inj (executed.1.symm.trans (inStep.command tag _ command))
  rw [same]
  exact matched.after inStep.offered ok

/-- The results that the context hands to the operation are those of the server, while the
    connection is up. -/
theorem told (inStep : d.InStep) (few : d.core.allocated < 2 ^ 64) {action : SessionAction}
    {cell : OpId}
    {ec : Option ErrorCode} (opened : d.core.phase = .opened) (tells : d.session.tells action cell ec) :
    ∃ r, (cell, r) ∈ d.peer.answers ∧ ec = mapStatusToEc r.status := by
  cases action with
  | context action =>
    obtain ⟨sec, selected, delivered⟩ := tells
    unfold Section.outcomes at delivered
    split at delivered
    · exact absurd opened (fail_left inStep.reached (System.section_pending selected))
    · next op r choice =>
      have same : cell = op ∧ ec = mapStatusToEc r.status := by
        split at delivered
        · cases delivered
        · split at delivered
          · split at delivered <;> simp at delivered
          · simpa using delivered
      obtain ⟨rfl, rfl⟩ := same
      obtain ⟨⟨q, answered⟩, tag, made⟩ :=
        inStep.vouched.replies opened cell r (System.section_pending selected)
      obtain ⟨madeQ, tagQ⟩ := inStep.answers q r answered
      have same := (Numbered.of_reachable inStep.reached few).unique madeQ made (tagQ.trans tag.symm)
      exact ⟨r, same ▸ answered, rfl⟩
    · split at delivered
      · cases delivered
      · split at delivered <;> simp at delivered
    · cases delivered
  | _ => exact tells.elim

theorem turn (inStep : d.InStep) (few : d.core.allocated < 2 ^ 64) {action : SessionAction}
    {session : Session}
    (turns : Session.Turns d.known (d.session.tells action) d.session session) (read : Nat) :
    InStep { d with session, peer := { d.peer with said := d.peer.said.drop read } } := by
  have keeps := turns.keeps inStep.reached
  have live {op : OpId} {m : Method}
      (live : Live { d with session, peer := { d.peer with said := d.peer.said.drop read } } op m) :
        d.Live op m :=
    ⟨live.1, live.2.1, keeps.begun op live.2.2⟩
  exact {
    reached := keeps.reached
    count := inStep.count.trans keeps.made.symm
    requests := fun op m made =>
      (keeps.fixed op (inStep.bound made)).request.trans (inStep.requests op m made)
    vouched := keeps.vouched inStep.vouched
    said := fun text member => inStep.said text (List.mem_of_mem_drop member)
    answers := fun op r answered => by
      obtain ⟨made, tag⟩ := inStep.answers op r answered
      exact ⟨keeps.made.symm ▸ made, (keeps.fixed op made).tag.trans tag⟩
    waiting := fun op member => (inStep.waiting op member).imp_left (keeps.sent op)
    queue := inStep.queue
    poised := turns.poised inStep.poised
    kind := turns.kind.trans inStep.kind
    command := fun tag cell command => inStep.command tag cell (turns.command ▸ command)
    offered := inStep.offered
    permitted := fun up op m here => inStep.permitted up op m (live here)
    single := fun p m q n first second => inStep.single p m q n (live first) (live second)
    current := fun opened op m here changes =>
      turns.command ▸ inStep.current (keeps.opened opened) op m (live here) changes
    before := fun opened none => inStep.before (keeps.opened opened) fun tag cell r command =>
      none tag cell r (turns.command.trans command)
    behind := fun opened tag cell r command =>
      inStep.behind (keeps.opened opened) tag cell r (turns.command ▸ command)
    results := fun opened ec member => by
      have opened := keeps.opened opened
      rcases turns.results ec member with old | ⟨cell, handles, tells⟩
      · exact turns.command ▸ inStep.results opened ec old
      · obtain ⟨r, answered, same⟩ := inStep.told few opened tells
        obtain ⟨tag, command⟩ := StateOperation.handled handles
        exact ⟨tag, cell, r, turns.command.trans command, answered, same⟩ }

theorem submits (inStep : d.InStep) {session : Session}
    (submits : Session.Submits d.known d.session session)
    (read : Nat) :
    InStep { d with
      session
      methods := d.methods ++ [d.method]
      peer := { d.peer with said := d.peer.said.drop read } } ∧
    session.system.core.made = d.core.made + 1 := by
  obtain ⟨u, keeps, adds⟩ := submits.adds inStep.reached
  obtain ⟨tag, command⟩ := submits.command
  have none := submits.unsubmitted inStep.poised
  have made : u.core.made = d.core.made := keeps.made
  have count : session.system.core.made = d.core.made + 1 := adds.made.trans (congrArg (· + 1) made)
  have fixed {op : OpId} (inside : op < d.core.made) :
    (d.core.cell op).Fixed (session.system.core.cell op) :=
    (keeps.fixed op inside).trans (adds.fixed op (made ▸ inside))
  have opens (opened : session.system.core.phase = .opened) : d.core.phase = .opened :=
    keeps.opened (adds.phase ▸ opened)
  have split {op : OpId} {m : Method} (here : (d.methods ++ [d.method])[op]? = some m) :
      d.methods[op]? = some m ∨ op = d.core.made ∧ m = d.method :=
    (concat_cases here).imp_right (And.imp_left fun last => last.trans inStep.count)
  have live {op : OpId} {m : Method} (live : (d.methods ++ [d.method])[op]? = some m ∧
      (∀ r, (op, r) ∉ d.peer.answers) ∧ Begun session.system.core session.system.pending op) :
      d.Live op m ∨ op = d.core.made ∧ m = d.method ∧ d.core.phase = .opened := by
    obtain ⟨here, unanswered, begun⟩ := live
    rcases split here with old | ⟨rfl, rfl⟩
    · have inside := inStep.bound old
      exact .inl ⟨old, unanswered, keeps.begun op (adds.begun op (made ▸ inside) begun)⟩
    · exact .inr ⟨rfl, rfl, keeps.opened (adds.fresh (made ▸ begun))⟩
  have alone {op : OpId} {m : Method} (here : d.Live op m) (opened : d.core.phase = .opened) :
    m = .idle :=
    (inStep.unsubmitted opened none).2 op m here
  refine ⟨{
    reached := adds.reached
    count := ?_
    requests := fun op m here => ?_
    vouched := adds.vouched (keeps.vouched inStep.vouched)
    said := fun text member => inStep.said text (List.mem_of_mem_drop member)
    answers := fun op r answered => ?_
    waiting := fun op member => (inStep.waiting op member).imp_left (adds.sent op ∘ keeps.sent op)
    queue := inStep.queue
    poised := submits.poised inStep.poised
    kind := submits.kind.trans inStep.kind
    command := fun tag' cell again => ?_
    offered := inStep.offered
    permitted := fun up op m here => ?_
    single := fun p m q n first second changes changes' => ?_
    current := fun opened op m here changes => ?_
    before := fun opened _ => (inStep.unsubmitted (opens opened) none).1
    behind := fun opened tag' cell r again answered => ?_
    results := fun opened ec member => ?_ }, count⟩
  · rw [List.length_append, inStep.count]
    exact count.symm
  · rcases split here with old | ⟨rfl, rfl⟩
    · exact (fixed (inStep.bound old)).request.trans (inStep.requests op m old)
    · have request : (session.system.core.cell d.core.made).request = d.session.op.kind.request :=
        made ▸ adds.request
      rw [inStep.kind] at request
      exact request.trans d.method.operation_request
  · obtain ⟨inside, tag⟩ := inStep.answers op r answered
    exact ⟨count ▸ Nat.lt_succ_of_lt inside, (fixed inside).tag.trans tag⟩
  · cases command.symm.trans again
    show (d.methods ++ [d.method])[d.core.made]? = some d.method
    rw [← inStep.count]
    simp
  · rcases live here with old | ⟨rfl, rfl, opened⟩
    · exact inStep.permitted up op m old
    · exact (inStep.unsubmitted opened none).1.permits inStep.offered
  · rcases live first with old | ⟨rfl, rfl, opened⟩ <;> rcases live second
      with old' | ⟨rfl, rfl, opened'⟩
    · exact inStep.single p m q n old old' changes changes'
    · exact absurd (alone old opened') changes
    · exact absurd (alone old' opened) changes'
    · rfl
  · rcases live here with old | ⟨rfl, rfl, -⟩
    · exact absurd (alone old (opens opened)) changes
    · exact ⟨tag, command⟩
  · cases command.symm.trans again
    exact absurd (inStep.answers _ r answered).1 (Nat.lt_irrefl _)
  · obtain ⟨tag', cell, r, again, -⟩ := inStep.results (opens opened) ec (submits.exits ▸ member)
    cases none.symm.trans again

/-- What is handed on while the connection is up is right. -/
theorem handed (inStep : d.InStep) (opened : d.core.phase = .opened) {exit : Exit} {next : SessionState}
    (member : exit ∈ d.session.op.exits) (hands : d.method.handsOn d.state exit = some next) :
    next.Matches d.peer.state := by
  cases exit with
  | result ec =>
    obtain ⟨tag, cell, r, command, answered, rfl⟩ := inStep.results opened ec member
    cases hands
    have status : (mapStatusToEc r.status).isNone = decide (r.status = .ok) := by cases r.status <;> rfl
    rw [status]
    exact inStep.behind opened tag cell r command answered
  | capabilityRequired =>
    cases hands
    exact (inStep.unsubmitted opened (inStep.poised.refused member).2).1.refused inStep.offered
  | woken =>
    cases hands
    have idle :=
      d.method.idle_of_operation
      (inStep.kind ▸ inStep.poised.armed (.inr (.inr (.inr (.inr member)))))
    by_cases answered :
      ∃ tag cell r, d.session.op.command = some (tag, cell) ∧ (cell, r) ∈ d.peer.answers
    · obtain ⟨tag, cell, r, command, answered⟩ := answered
      have matched := inStep.behind opened tag cell r command answered
      rw [idle] at matched ⊢
      exact matched
    · have matched := inStep.before opened fun tag cell r command member =>
        answered ⟨tag, cell, r, command, member⟩
      rw [idle]
      exact matched
  | stopped => cases hands

theorem call (inStep : d.InStep) {method : Method} {capabilities : List Bytes} {t : Dialogue}
    (called : d.call method capabilities = some t) : t.InStep := by
  unfold Dialogue.call at called
  split at called
  · obtain ⟨next, handed, called⟩ := Option.bind_eq_some_iff.mp called
    obtain ⟨exit, head, hands⟩ := Option.bind_eq_some_iff.mp handed
    have member := List.mem_of_mem_head? head
    split at called
    · next offered =>
      cases called
      refine { inStep with
        poised := .unstarted _ _
        kind := rfl
        command := fun tag cell command => by cases command
        offered := offered
        current := fun opened op m live changes => ?_
        before := fun opened _ => inStep.handed opened member hands
        behind := fun opened tag cell r command => by cases command
        results := fun opened ec member => by cases member }
      obtain ⟨tag, command⟩ := inStep.current opened op m live changes
      have own : m = d.method := Option.some.inj (live.1.symm.trans (inStep.command tag op command))
      exfalso
      cases exit with
      | result ec =>
        obtain ⟨tag', cell, r, again, answered, -⟩ := inStep.results opened ec member
        cases command.symm.trans again
        exact live.2.1 r answered
      | capabilityRequired => cases command.symm.trans (inStep.poised.refused member).2
      | woken =>
        exact changes (own.trans (d.method.idle_of_operation
          (inStep.kind ▸ inStep.poised.armed (.inr (.inr (.inr (.inr member)))))))
      | stopped => cases hands
    · cases called
  · cases called

theorem hear (inStep : d.InStep) {t : Dialogue} (heard : d.hear = some t) : t.InStep := by
  obtain ⟨segment, found, rfl⟩ := Option.map_eq_some_iff.mp heard
  have sent : d.core.sent segment.1 ≠ [] := by
    obtain ⟨staging, member, same⟩ := List.mem_map.mp (List.mem_of_getElem? found)
    rw [ContextCore.sent_stagings]
    refine List.ne_nil_of_mem (List.mem_map_of_mem (List.mem_filter.mpr ⟨member, ?_⟩))
    rw [← same]
    exact beq_self_eq_true _
  refine { inStep with waiting := ?_, queue := ?_ }
  · intro op member
    simp only at member
    split at member
    · exact inStep.waiting op member
    · next fresh =>
      rcases List.mem_append.mp member with old | new
      · exact inStep.waiting op old
      · cases List.mem_singleton.mp new
        refine ⟨sent, fun r answered => fresh (List.mem_append_right _ ?_)⟩
        exact List.mem_map_of_mem (f := Prod.fst) answered
  · simp only
    split
    · exact inStep.queue
    · next fresh =>
      refine List.nodup_append.mpr ⟨inStep.queue, List.nodup_singleton _, ?_⟩
      rintro op old other new rfl
      exact fresh (List.mem_append_left _ (List.mem_singleton.mp new ▸ old))

theorem say (inStep : d.InStep) {text : Bytes} {t : Dialogue} (said : d.say text = some t) :
    t.InStep := by
  unfold Dialogue.say at said
  split at said
  · cases said
  · next other =>
    cases said
    refine { inStep with said := fun later member r parsed => ?_ }
    rcases List.mem_append.mp member with old | new
    · exact inStep.said later old r parsed
    · cases List.mem_singleton.mp new
      exact absurd parsed (other r)

theorem answer (inStep : d.InStep) {r : TaggedResponse} {text : Bytes} {t : Dialogue}
    (answered : d.answer r text = some t) : t.InStep := by
  unfold Dialogue.answer at answered
  split at answered
  · cases answered
  · next op waiting queue =>
    split at answered
    · next allowed =>
      obtain ⟨up, tag, parsed⟩ := allowed
      obtain ⟨method, here, rfl⟩ := Option.map_eq_some_iff.mp answered
      obtain ⟨sent, unanswered⟩ := inStep.waiting op (queue ▸ List.mem_cons_self)
      obtain ⟨fresh, nodup⟩ := List.nodup_cons.mp (queue ▸ inStep.queue)
      have executed : d.Live op method := ⟨here, unanswered, .inl sent⟩
      have older {p : OpId} {q : TaggedResponse} (member : (p, q) ∈ d.peer.answers) :
          (p, q) ∈ d.peer.answers ++ [(op, r)] := List.mem_append_left _ member
      have last : (op, r) ∈ d.peer.answers ++ [(op, r)] :=
        List.mem_append_right _ (List.mem_singleton_self _)
      refine { inStep with
        vouched := inStep.vouched.mono fun q ⟨p, member⟩ => ⟨p, older member⟩
        said := fun later member q read => ?_
        answers := fun p q member => ?_
        waiting := fun p member => ?_
        queue := nodup
        permitted := fun stays p m live =>
          inStep.permitted_behind executed up stays (Live.answered rfl live).1
            (Live.answered rfl live).2
        single := fun p m q n first second =>
          inStep.single p m q n (Live.answered rfl first).1 (Live.answered rfl second).1
        current := fun opened p m live => inStep.current opened p m (Live.answered rfl live).1
        before := fun opened silent => ?_
        behind := fun opened tag' cell q command member => ?_
        results := fun opened ec member => ?_ }
      · rcases List.mem_append.mp member with old | new
        · obtain ⟨p, member⟩ := inStep.said later old q read
          exact ⟨p, older member⟩
        · cases List.mem_singleton.mp new
          cases parsed.symm.trans read
          exact ⟨op, last⟩
      · rcases List.mem_append.mp member with old | new
        · exact inStep.answers p q old
        · cases List.mem_singleton.mp new
          exact ⟨inStep.bound here, tag.symm⟩
      · obtain ⟨sends, silent⟩ := inStep.waiting p (queue ▸ List.mem_cons_of_mem op member)
        refine ⟨sends, fun q answered => ?_⟩
        rcases List.mem_append.mp answered with old | new
        · exact silent q old
        · cases List.mem_singleton.mp new
          exact fresh member
      · by_cases idle : method = .idle
        · simp only [idle, ServerState.after_idle]
          exact inStep.before opened fun tag' cell q command member =>
            silent tag' cell q command (older member)
        · obtain ⟨tag', command⟩ := inStep.current opened op method executed idle
          exact absurd last (silent tag' op r command)
      · rcases List.mem_append.mp member with old | new
        · by_cases idle : method = .idle
          · simp only [idle, ServerState.after_idle]
            exact inStep.behind opened tag' cell q command old
          · cases inStep.executed_own executed opened idle command
            exact absurd old (unanswered q)
        · cases List.mem_singleton.mp new
          exact inStep.current_behind executed opened command _
      · obtain ⟨tag', cell, q, command, member, same⟩ := inStep.results opened ec member
        exact ⟨tag', cell, q, command, older member, same⟩
    · cases answered

theorem inside (inStep : d.InStep) (few : d.core.allocated < 2 ^ 64) {action : SessionAction}
    {t : Dialogue}
    (stepped : d.inside action = some t) : t.InStep := by
  unfold Dialogue.inside at stepped
  split at stepped
  · next allowed =>
    obtain ⟨session, moved, rfl⟩ := Option.map_eq_some_iff.mp stepped
    have read : ∀ text ∈ action.texts, ∀ r, Parser.parse text = some (.tagged r) → d.known r :=
        fun text member =>
      inStep.said text ((List.isPrefixOf_iff_prefix.mp allowed.2).subset member)
    rcases Session.step_turns allowed.1 read moved with turns | submits
    · have same : session.system.core.made = d.core.made := (turns.keeps inStep.reached).made
      rw [if_pos same]
      exact inStep.turn few turns _
    · obtain ⟨next, made⟩ := inStep.submits submits action.texts.length
      rw [if_neg (by omega)]
      exact next
  · cases stepped

theorem step (inStep : d.InStep) (few : d.core.allocated < 2 ^ 64) {action : DialogueAction}
    {t : Dialogue}
    (stepped : d.step action = some t) : t.InStep := by
  cases action with
  | inside action => exact inStep.inside few stepped
  | call method capabilities => exact inStep.call stepped
  | hear => exact inStep.hear stepped
  | answer r text => exact inStep.answer stepped
  | say text => exact inStep.say stepped

end InStep

/-- Tags are only ever allocated. -/
theorem step_allocated {d t : Dialogue} {action : DialogueAction}
    (reached : imapContext.Reachable d.system)
    (stepped : d.step action = some t) :
    imapContext.Reachable t.system ∧ d.core.allocated ≤ t.core.allocated := by
  have same (system : t.system = d.system) :
      imapContext.Reachable t.system ∧ d.core.allocated ≤ t.core.allocated := by
    refine ⟨system ▸ reached, ?_⟩
    change d.system.core.allocated ≤ t.system.core.allocated
    rw [system]
  cases action with
  | inside action =>
    have stepped : d.inside action = some t := stepped
    unfold Dialogue.inside at stepped
    split at stepped
    · next allowed =>
      obtain ⟨session, moved, rfl⟩ := Option.map_eq_some_iff.mp stepped
      have read : ∀ text ∈ action.texts, ∀ r, Parser.parse text = some (.tagged r) →
        (fun _ => True) r :=
        fun _ _ _ _ => True.intro
      rcases Session.step_turns allowed.1 read moved with turns | submits
      · exact ⟨(turns.keeps reached).reached, (turns.keeps reached).allocated⟩
      · obtain ⟨u, keeps, adds⟩ := submits.adds reached
        exact ⟨adds.reached, keeps.allocated.trans adds.allocated⟩
    · cases stepped
  | call method capabilities =>
    have stepped : d.call method capabilities = some t := stepped
    unfold Dialogue.call at stepped
    split at stepped
    · obtain ⟨next, -, called⟩ := Option.bind_eq_some_iff.mp stepped
      split at called
      · cases called
        exact same rfl
      · cases called
    · cases stepped
  | hear =>
    obtain ⟨segment, -, rfl⟩ := Option.map_eq_some_iff.mp stepped
    exact same rfl
  | answer r text =>
    have stepped : d.answer r text = some t := stepped
    unfold Dialogue.answer at stepped
    split at stepped
    · cases stepped
    · split at stepped
      · obtain ⟨method, -, rfl⟩ := Option.map_eq_some_iff.mp stepped
        exact same rfl
      · cases stepped
  | say text =>
    have stepped : d.say text = some t := stepped
    unfold Dialogue.say at stepped
    split at stepped
    · cases stepped
    · cases stepped
      exact same rfl

theorem InStep.of_run {server : ServerState} {state : SessionState} {method : Method}
    {capabilities : List Bytes}
    (matched : state.Matches server) (offered : state.offers method = true) {d : Dialogue}
    (run : (dialogue server state method capabilities).Reachable d)
    (few : d.core.allocated < 2 ^ 64) : d.InStep := by
  have invariant :=
    run.invariant (fun d => imapContext.Reachable d.system ∧
      (d.core.allocated < 2 ^ 64 → d.InStep)) ?_ ?_
  · exact invariant.2 few
  · refine ⟨.start, fun _ => ?_⟩
    exact {
      reached := .start
      count := rfl
      requests := fun op m made => by cases made
      vouched := .initial
      said := fun text member => by cases member
      answers := fun op r member => by cases member
      waiting := fun op member => by cases member
      queue := .nil
      poised := .unstarted _ _
      kind := rfl
      command := fun tag cell command => by cases command
      offered := offered
      permitted := fun _ op m live => by cases live.1
      single := fun p m q n first => by cases first.1
      current := fun _ op m live => by cases live.1
      before := fun _ _ => matched
      behind := fun _ tag cell r command => by cases command
      results := fun _ ec member => by cases member }
  · rintro before after action - ⟨reached, inStep⟩ - stepped
    obtain ⟨next, grows⟩ := step_allocated reached stepped
    exact ⟨next, fun few => (inStep (grows.trans_lt few)).step (grows.trans_lt few) stepped⟩

end Dialogue

/-- Whatever the threads of the context, the operations, their stops and the server do: the server
    is in a state that permits each command that it comes to execute, and a state that is handed on
    while the connection is up is the one that the server is in. -/
theorem session_in_step {server : ServerState} {state : SessionState} {method : Method}
    {capabilities : List Bytes}
    (matched : state.Matches server) (offered : state.offers method = true) {d : Dialogue}
    (reached : (dialogue server state method capabilities).Reachable d)
    (few : d.core.allocated < 2 ^ 64) :
    (d.peer.state ≠ .logout → ∀ op ∈ d.peer.waiting, ∃ m, d.methods[op]? = some m ∧
      (d.core.cell op).request = m.request ∧ d.peer.state.permits m.demand = true) ∧
    (d.core.phase = .opened →
    ∀ exit ∈ d.session.op.exits, ∀ next, d.method.handsOn d.state exit = some next →
      next.Matches d.peer.state) := by
  have inStep := Dialogue.InStep.of_run matched offered reached few
  refine ⟨fun up op member => ?_, fun opened exit member next hands =>
    inStep.handed opened member hands⟩
  obtain ⟨sent, unanswered⟩ := inStep.waiting op member
  have made : op < d.methods.length := by
    rw [inStep.count]
    by_contra outside
    have unborn := (Lived.of_run (.of_reachable inStep.reached)).unborn op (Nat.le_of_not_lt outside)
    exact sent (congrArg stagedSegments unborn)
  have here : d.methods[op]? = some d.methods[op] := List.getElem?_eq_getElem made
  exact ⟨_, here, inStep.requests op _ here, inStep.permitted up op _ ⟨here, unanswered, .inl sent⟩⟩

/-- A LOGIN is accepted and leads to the authenticated state, and the SELECT that is called on it is
    what the server reads next. -/
theorem session_in_step_select :
    ∃ d, (dialogue .notAuthenticated .notAuthenticated
    (.login { userName := ascii "u", password := ascii "p" })
        []).Reachable d ∧
      d.core.phase = .opened ∧ d.state = .authenticated ∧ d.peer.waiting = [1] ∧
      (d.peer.state ≠ .logout → ∀ op ∈ d.peer.waiting, ∃ m, d.methods[op]? = some m ∧
        (d.core.cell op).request = m.request ∧ d.peer.state.permits m.demand = true) ∧
      (d.core.phase = .opened →
      ∀ exit ∈ d.session.op.exits, ∀ next, d.method.handsOn d.state exit = some next →
        next.Matches d.peer.state) := by
  obtain ⟨d, reached, here⟩ := (dialogue .notAuthenticated .notAuthenticated
      (.login { userName := ascii "u", password := ascii "p" }) []).reachable_of_trace
    [.inside (.context (.resume 0 .go)), .inside (.start 0), .inside (.start 7),
    .inside (.context (.resume 3 .go)), .inside (.start 0), .inside (.start 0), .inside (.start 0),
    .inside (.start 0), .inside (.start 0), .inside (.context (.resume 5 .done)),
    .inside (.context (.resume 5 .go)), .inside (.context (.resume 5 .go)),
      .hear, .answer { tag := ascii "a0001", text := ascii "done" } (ascii "a0001 OK done"),
      .inside (.context (.resume 1 (.data [ascii "a0001 OK done"]))),
      .inside (.context (.resume 1 .go)), .inside (.context (.resume 1 .go)),
      .call (.directive (.select (ascii "INBOX"))) [], .inside (.start 0),
      .inside (.start 8), .inside (.context (.resume 7 .go)), .inside (.context (.resume 5 .go)),
      .inside (.context (.resume 8 .done)), .inside (.context (.resume 8 .go)), .inside (.start 0),
      .inside (.start 0), .inside (.start 0), .inside (.start 0), .inside (.start 0),
      .inside (.context (.resume 10 .done)), .inside (.context (.resume 10 .go)),
      .inside (.context (.resume 10 .go)), .hear]
    (fun d => decide (d.core.phase = .opened ∧ d.state = .authenticated ∧ d.peer.waiting = [1] ∧
      d.core.allocated < 2 ^ 64)) (by decide +kernel)
  obtain ⟨opened, state, waiting, few⟩ := of_decide_eq_true here
  have matched : SessionState.notAuthenticated.Matches .notAuthenticated := rfl
  exact ⟨d, reached, opened, state, waiting, session_in_step matched rfl reached few⟩

end Bkmail
