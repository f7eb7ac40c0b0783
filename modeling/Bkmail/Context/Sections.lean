import Bkmail.Automaton.Pool
import Bkmail.Context.System

namespace Bkmail

/-- What one step of the system runs: a call into the core, or the next section of a thread. -/
inductive Section where
  | call (call : Call)
  | work (work : Work) (choice : Choice)

namespace Section

def run (core : ContextCore) : Section → Option Outcome
  | .call c => c.run core
  | .work w choice => w.run core choice

def consumed : Section → List Work
  | .call _ => []
  | .work w _ => [w]

/-- The sections that can run, with the outcome of each and the condition that enables it. -/
inductive Runs (s : ContextCore) : Section → Outcome → Prop where
  | allocateTag : Runs s (.call .allocateTag) { core := s.allocateTag }
  | submit (tag : Tag) (request : Request) (addr : Nat) (callbackPath : Bool) :
      tag ∈ s.tags → (∀ op ∈ s.live, (s.cell op).addr ≠ addr) →
      Runs s (.call (.submit tag request addr callbackPath))
      (s.attach tag request addr callbackPath !callbackPath)
  | flush : Runs s (.call .flush) (s.emit [.flushCalled]).postKick
  | cancel (tag : Tag) : Runs s (.call (.cancel tag)) (s.cancelWith tag none)
  | requestStop (op : OpId) : op ∈ s.live → (s.cell op).finished = false →
      Runs s (.call (.requestStop op)) (s.requestStop op)
  | close : Runs s (.call .close) s.close
  | abandon : Runs s (.call .abandon) s.abandon
  | suspend : Runs s (.call .suspendReadForRelocation) { core := { s with suspendRead := true } }
  | reading (choice : Choice) (result : ReadResult) :
      Runs s (.work .reading choice) (s.readReceiver result)
  | writeDone (batch : Batch) : Runs s (.work (.writing batch) .done) (s.onWriteDone none batch)
  | writeError (batch : Batch) (ec : ErrorCode) :
      Runs s (.work (.writing batch) (.failed ec)) (s.onWriteDone (some ec) batch)
  | kickScheduled : Runs s (.work .kickScheduled .done) (s.kickReceiver true)
  | kickRefused (ec : ErrorCode) : Runs s (.work .kickScheduled (.failed ec)) (s.kickReceiver false)
  | stopScheduled (op : OpId) :
      Runs s (.work (.stopScheduled op) .done) { core := s.completeStopped op, left := [.dispose [op]] }
  | enqueueOperation (op : OpId) (post : Bool) :
      Runs s (.work (.enqueueOperation op post) .go) (s.enqueueOperation op post)
  | postKick : Runs s (.work .postKick .go) s.postKick
  | postCompleteStopped (op : OpId) :
      Runs s (.work (.postCompleteStopped op) .go) { core := s, armed := [.stopScheduled op] }
  | fail (op : OpId) (ec : ErrorCode) : Runs s (.work (.fail op ec) .go) { core := s.fail op ec }
  | onTagged (op : OpId) (r : TaggedResponse) :
      Runs s (.work (.onTagged op r) .go) { core := s.onTagged op r }
  | dispose (ops : List OpId) : Runs s (.work (.dispose ops) .go) { core := s.dispose ops }
  | maybeFinishClose : Runs s (.work .maybeFinishClose .go) { core := s.maybeFinishClose }
  | connectionLost (ec : ErrorCode) : Runs s (.work (.connectionLost ec) .go) (s.connectionLost ec)
  | kickGate : Runs s (.work .kickGate .go) s.kickGate
  | kick : Runs s (.work .kick .go) s.kick
  | armWrite (batch : Batch) : Runs s (.work (.armWrite batch) .go) (s.armWrite batch)
  | writeFailed (ec : ErrorCode) (retired : List OpId) :
      Runs s (.work (.writeFailed ec retired) .go) (s.writeFailed ec retired)
  | writeLost (ec : ErrorCode) (retired : List OpId) :
      Runs s (.work (.writeLost ec retired) .go) (s.writeLost ec retired)
  | writeQuiet (batch : Batch) : Runs s (.work (.writeQuiet batch) .go) (s.writeQuiet batch)
  | writeFlushed (batch : Batch) : Runs s (.work (.writeFlushed batch) .go) (s.writeFlushed batch)
  | armRead : Runs s (.work .armRead .go) s.armRead
  | onReadFailed (ec : Option ErrorCode) : Runs s (.work (.onReadFailed ec) .go) (s.onReadFailed ec)
  | readLoop (texts : List Bytes) : Runs s (.work (.readLoop texts) .go) (s.readLoop texts)
  | routeUntagged (r : UntaggedResponse) : Runs s (.work (.routeUntagged r) .go) (s.routeUntagged r)
  | rearm : Runs s (.work .rearm .go) s.rearm
  | readLost : Runs s (.work .readLost .go) s.readLost
  | readStop : Runs s (.work .readStop .go) s.readStop

theorem runs_of_call {s : ContextCore} {c : Call} {o : Outcome} (ran : c.run s = some o) :
    Runs s (.call c) o := by
  cases c with
  | submit tag request addr callbackPath =>
    simp only [Call.run] at ran
    split at ran
    · rename_i enabled
      cases ran
      exact .submit tag request addr callbackPath enabled.1 enabled.2
    · cases ran
  | requestStop op =>
    simp only [Call.run] at ran
    split at ran
    · rename_i enabled
      cases ran
      exact .requestStop op enabled.1 enabled.2.2
    · cases ran
  | _ =>
    cases ran
    constructor

theorem runs_of_work {s : ContextCore} {w : Work} {choice : Choice} {o : Outcome}
    (ran : w.run s choice = some o) : Runs s (.work w choice) o := by
  cases w <;> cases choice <;> cases ran <;> constructor

theorem runs {s : ContextCore} {sec : Section} {o : Outcome} (ran : sec.run s = some o) :
    Runs s sec o := by
  cases sec with
  | call c => exact runs_of_call ran
  | work w choice => exact runs_of_work ran

end Section

def Outcome.produced (o : Outcome) : List Work := o.left ++ o.armed

namespace System

def section? (s : System) : Action → Option Section
  | .call call => some (.call call)
  | .resume i choice => (s.threads[i]?.bind List.head?).map (.work · choice)

theorem armed_flatten (armed : List Work) : (armed.map ([·])).flatten = armed := by
  induction armed with
  | nil => rfl
  | cons work armed ih => simpa using ih

/-- A step runs one section on the core. It takes the section out of the pending work, puts in
    what the section leaves and arms, and keeps everything else. -/
theorem step_section {s t : System} {action : Action} (stepped : s.step action = some t) :
    ∃ sec o others, s.section? action = some sec ∧ sec.run s.core = some o ∧ t.core = o.core ∧
      s.pending.Perm (sec.consumed ++ others) ∧ t.pending.Perm (o.produced ++ others) := by
  cases action with
  | call call =>
    simp only [step, Option.map_eq_some_iff] at stepped
    obtain ⟨o, ran, rfl⟩ := stepped
    refine ⟨.call call, o, s.pending, rfl, ran, rfl, List.Perm.refl _, ?_⟩
    simp only [pending, List.flatten_append, armed_flatten, List.flatten_cons, List.flatten_nil,
      List.append_nil, Outcome.produced]
    rw [List.append_assoc]
    exact List.perm_append_comm
  | resume i choice =>
    simp only [step] at stepped
    split at stepped
    · rename_i work rest head
      obtain ⟨o, ran, rfl⟩ := Option.map_eq_some_iff.mp stepped
      obtain ⟨others, before, after⟩ := Automaton.resume_exchange head o.left
      refine ⟨.work work choice, o, others, by simp [section?, head], ran, rfl, before, ?_⟩
      simp only [pending, List.flatten_append, armed_flatten, Outcome.produced, List.append_assoc]
      refine (after.append_right o.armed).trans ?_
      rw [List.append_assoc]
      exact List.perm_append_comm.append_left o.left
    · cases stepped

end System

/-- A condition on the core, the pending work and the section that is about to run, as a
    condition on the steps of the system. -/
def Allows (guard : ContextCore → List Work → Section → Prop) (s : System) (action : Action) : Prop :=
  ∀ sec, s.section? action = some sec → guard s.core s.pending sec

abbrev GuardedRun (guard : ContextCore → List Work → Section → Prop) : System → Prop :=
  imapContext.Guarded (Allows guard)

theorem GuardedRun.invariant {guard : ContextCore → List Work → Section → Prop}
    (holds : ContextCore → List Work → Prop)
    (permuted : ∀ core before after, before.Perm after → holds core before → holds core after)
    (initial : holds {} [.armRead])
    (preserved : ∀ (s : System) (others : List Work) (sec : Section) (o : Outcome), GuardedRun guard s →
      s.pending.Perm (sec.consumed ++ others) → holds s.core s.pending → guard s.core s.pending sec →
      sec.Runs s.core o → holds o.core (o.produced ++ others))
    {s : System} (run : GuardedRun guard s) : holds s.core s.pending := by
  refine Automaton.Machine.Guarded.invariant (fun s => holds s.core s.pending) ?_ ?_ run
  · exact initial
  · intro before after action earlier ih allowed stepped
    obtain ⟨sec, o, others, selected, ran, same, consumed, produced⟩ := System.step_section stepped
    have next :=
      preserved before others sec o earlier consumed ih (allowed sec selected) (Section.runs ran)
    rw [same]
    exact permuted _ _ _ produced.symm next

def permits (guard : ContextCore → List Work → Section → Bool) (s : System) (action : Action) : Bool :=
  (s.section? action).all (guard s.core s.pending)

theorem GuardedRun.of_trace (guard : ContextCore → List Work → Section → Prop)
    [∀ core pending sec, Decidable (guard core pending sec)] (actions : List Action)
    (property : System → Bool)
    (ran : (imapContext.run (permits fun core pending sec => guard core pending sec)
    {} actions).map property =
      some true) : ∃ s, GuardedRun guard s ∧ property s = true := by
  refine imapContext.guarded_of_trace _ actions property ?_ ran
  intro before action permitted sec selected
  simpa [permits, selected] using permitted

abbrev GuardedFrom (guard : ContextCore → List Work → Section → Prop) (start : System) :
    System → Prop :=
  imapContext.Follows (Allows guard) start

theorem GuardedFrom.invariant {guard : ContextCore → List Work → Section → Prop} {start : System}
    (holds : ContextCore → List Work → Prop)
    (permuted : ∀ core before after, before.Perm after → holds core before → holds core after)
    (initial : holds start.core start.pending) (reached : imapContext.Reachable start)
    (preserved : ∀ (s : System) (others : List Work) (sec : Section) (o : Outcome),
    imapContext.Reachable s → s.pending.Perm (sec.consumed ++ others) → holds s.core s.pending →
    guard s.core s.pending sec → sec.Runs s.core o → holds o.core (o.produced ++ others))
    {s : System} (follows : GuardedFrom guard start s) : holds s.core s.pending := by
  refine Automaton.Machine.Follows.invariant (fun s => holds s.core s.pending) initial ?_ follows
  intro before after action earlier ih allowed stepped
  obtain ⟨sec, o, others, selected, ran, same, consumed, produced⟩ := System.step_section stepped
  have next :=
    preserved before others sec o (earlier.reachable reached) consumed ih (allowed sec selected)
    (Section.runs ran)
  rw [same]
  exact permuted _ _ _ produced.symm next

theorem GuardedFrom.of_trace (guard : ContextCore → List Work → Section → Prop)
    [∀ core pending sec, Decidable (guard core pending sec)] {start : System} {actions : List Action}
    {property : System → Bool}
    (ran : (imapContext.run (permits fun core pending sec =>
    guard core pending sec) start actions).map property =
      some true) : ∃ s, GuardedFrom guard start s ∧ property s = true := by
  obtain ⟨s, ran, holds⟩ := Option.map_eq_some_iff.mp ran
  refine ⟨s, Automaton.Machine.Follows.of_run (fun before action permitted sec selected =>
    ?_) .here ran, holds⟩
  simpa [permits, selected] using permitted

theorem GuardedFrom.of_leads {start s : System} (leads : imapContext.Leads start s) :
    GuardedFrom (fun _ _ _ => True) start s :=
  leads.follows.mono fun _ _ _ _ _ => True.intro

theorem GuardedRun.of_reachable {s : System} (run : imapContext.Reachable s) :
    GuardedRun (fun _ _ _ => True) s :=
  run.mono fun _ _ _ _ _ => True.intro

end Bkmail
