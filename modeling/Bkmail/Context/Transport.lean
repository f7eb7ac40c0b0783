import Bkmail.Context.Wire

namespace Bkmail

def drainBytes (number : Nat) (log : List Event) : Bytes :=
  ((stagings log).filter fun entry => entry.1 == number).flatMap fun entry => entry.2.2

/-- While a write is under way, the staging buffer holds what its drain staged. -/
structure StagingHeld (core : ContextCore) (pending : List Work) : Prop where
  numbered : ∀ entry ∈ stagings core.log, entry.1 ≤ core.drains
  held : ∀ batch ∈ batchesOf pending, batch.number = core.drains ∧
    core.writeStaging = drainBytes batch.number core.log

namespace StagingHeld

variable {core : ContextCore} {pending : List Work}

theorem permuted {after : List Work} (perm : pending.Perm after) (held : StagingHeld core pending) :
    StagingHeld core after :=
  { held with held := fun batch member => held.held batch ((perm.symm.filterMap Work.batch?).subset member) }

theorem initial : StagingHeld {} [.armRead] := ⟨by simp [stagings], by simp [Work.batch?]⟩

theorem preserved {sec : Section} {others : List Work} {o : Outcome} (runs : sec.Runs core o)
    (consumed : pending.Perm (sec.consumed ++ others)) (custody : Custody core pending)
    (latched : Latched core pending) (held : StagingHeld core pending) :
    StagingHeld o.core (o.produced ++ others) := by
  have before := held.permuted consumed
  rcases runs.stagings custody.nodup_queue with ⟨log, staging, drains⟩ | ⟨rfl, opened, idle, kicked⟩
  · refine ⟨by rw [log, drains]; exact held.numbered, fun batch member => ?_⟩
    have old : batch ∈ batchesOf (sec.consumed ++ others) := by
      rw [batchesOf_append] at member ⊢
      rcases List.mem_append.mp member with new | other
      · rcases runs.batch_source new with used | ⟨-, -, next, -⟩
        · exact List.mem_append_left _ used
        · exact absurd (next.symm.trans drains) (Nat.succ_ne_self _)
      · exact List.mem_append_right _ other
    obtain ⟨number, bytes⟩ := before.held batch old
    refine ⟨by rw [number, drains], ?_⟩
    rw [staging, bytes, drainBytes, drainBytes, log]
  · have earlier : (stagings core.log).filter (fun entry => entry.1 == core.drains + 1) = [] := by
      refine List.filter_eq_nil_iff.mpr fun entry member => ?_
      have bound := held.numbered entry member
      simp only [beq_iff_eq]
      omega
    refine ⟨?_, fun batch member => ?_⟩
    · intro entry member
      rw [kicked.stagings] at member
      rw [kicked.drains]
      rcases List.mem_append.mp member with old | new
      · exact Nat.le_succ_of_le (held.numbered entry old)
      · obtain ⟨op, -, rfl⟩ := List.mem_map.mp new
        exact Nat.le_refl _
    · have none : batchesOf (Section.consumed (.work .kick .go) ++ others) = [] := by
        have count := (latched.permuted consumed).write
        simpa [idle] using count
      rw [batchesOf_append] at none member
      have new :=
        (List.mem_append.mp member).resolve_right (by simp [(List.append_eq_nil_iff.mp none).2])
      rcases runs.batch_source new with used | ⟨-, -, -, rfl⟩
      · simp [(List.append_eq_nil_iff.mp none).1] at used
      · refine ⟨kicked.drains.symm, ?_⟩
        rw [kicked.staging, drainBytes, kicked.stagings, List.filter_append, earlier, List.nil_append,
          List.filter_eq_self.mpr, List.flatMap_map]
        intro entry member
        obtain ⟨op, -, rfl⟩ := List.mem_map.mp member
        simp

theorem of_run {guard : ContextCore → List Work → Section → Prop} {s : System}
    (run : GuardedRun guard s) :
    StagingHeld s.core s.pending :=
  run.invariant StagingHeld (fun _ _ _ perm held => held.permuted perm) initial
    fun _ _ _ _ earlier consumed held _ runs =>
      held.preserved runs consumed (.of_run earlier) (.of_run earlier)

end StagingHeld

/-- The descriptor is closed with the phase, and that is the last thing done to the transport. -/
structure ClosedLast (core : ContextCore) : Prop where
  before : core.phase ≠ .closed → .descriptorClosed ∉ core.transportLog
  after : core.phase = .closed →
    ∃ earlier, core.transportLog = earlier ++ [.descriptorClosed] ∧ .descriptorClosed ∉ earlier

namespace ClosedLast

variable {core : ContextCore}

theorem initial : ClosedLast {} := ⟨by simp [ContextCore.transportLog], by simp⟩

theorem same (last : ClosedLast core) {next : ContextCore} (phase : next.phase = core.phase)
    (transport : next.transportLog = core.transportLog) : ClosedLast next :=
  ⟨by rw [phase, transport]; exact last.before, by rw [phase, transport]; exact last.after⟩

theorem closes (last : ClosedLast core) (running : core.phase ≠ .closed) :
    ClosedLast { core.emit [.descriptorClosed] with phase := .closed } :=
  ⟨fun open' => absurd rfl open', fun _ => ⟨_, core.transportLog_emit _, last.before running⟩⟩

theorem arms (last : ClosedLast core) {events : List Event} (running : core.phase ≠ .closed)
    (keeps : .descriptorClosed ∉ events) : ClosedLast (core.emit events) := by
  refine ⟨fun _ => ?_, fun closed => absurd closed running⟩
  rw [ContextCore.transportLog_emit]
  intro member
  rcases List.mem_append.mp member with old | new
  · exact last.before running old
  · exact keeps (List.mem_of_mem_filter new)

theorem preserved {sec : Section} {o : Outcome} (runs : sec.Runs core o) (last : ClosedLast core) :
    ClosedLast o.core := by
  cases runs.controls with
  | idle _ _ control => exact last.same control.phase control.transport
  | suspend => exact last.same rfl rfl
  | teardown _ _ running phase _ _ _ _ transport =>
    exact ⟨fun _ => transport ▸ last.before running, fun closed => by simp [phase] at closed⟩
  | finish draining => exact last.closes (by simp [draining])
  | kick opened =>
    have agrees := ContextCore.drain_agrees core.writeQueue core.newDrain
    exact last.same agrees.phase agrees.transport
  | armWrite _ opened => exact last.arms (by simp [opened]) (by simp)
  | writeEnd _ _ _ control => exact last.same control.phase control.transport
  | armRead opened => exact last.arms (by simp [opened]) (by simp)
  | unwindRead =>
    have unlatched : ClosedLast core.unlatchRead := last.same rfl rfl
    unfold ContextCore.maybeFinishClose
    split
    · rename_i quiet
      exact unlatched.closes (by rw [quiet.1]; simp)
    · exact unlatched
  | readEnd _ _ _ control => exact last.same control.phase control.transport

theorem of_run {guard : ContextCore → List Work → Section → Prop} {s : System}
    (run : GuardedRun guard s) :
    ClosedLast s.core :=
  run.invariant (fun core _ => ClosedLast core) (fun _ _ _ _ last => last) initial
    fun _ _ _ _ _ _ last _ runs => last.preserved runs

end ClosedLast

def Work.isReading : Work → Bool
  | .reading => true
  | _ => false

def Work.isWriting : Work → Bool
  | .writing _ => true
  | _ => false

theorem isReading_le_readsOf (pending : List Work) : pending.countP Work.isReading ≤ readsOf pending :=
  List.countP_mono_left fun w _ reading => by
    cases w <;> simp_all [Work.isReading, Work.reads]

theorem isWriting_le_batchesOf (pending : List Work) :
    pending.countP Work.isWriting ≤ (batchesOf pending).length := by
  rw [batchesOf, List.length_filterMap_eq_countP]
  refine List.countP_mono_left fun w _ writing => ?_
  cases w <;> simp_all [Work.isWriting, Work.batch?]

theorem count_transport {core : ContextCore} {event : Event} (transport : event.transport = true) :
    core.log.count event = core.transportLog.count event :=
  (List.count_filter transport).symm

/-- What a section does to the transport, and when. -/
theorem Section.Controls.transports {s : ContextCore} {sec : Section} {o : Outcome}
    (controls : sec.Controls s o) :
    o.core.transportLog = s.transportLog ∨
      (∃ number, o.core.transportLog = s.transportLog ++ [.writeArmed number]) ∨
      sec = .work .armRead .go ∧ o.core.transportLog = s.transportLog ++ [.prepared, .readArmed] ∨
      s.writeInFlight = false ∧ (s.readRunning = false ∨ sec = .work .armRead .go) ∧
        o.core.transportLog = s.transportLog ++ [.descriptorClosed] := by
  cases controls with
  | idle _ _ control => exact .inl control.transport
  | suspend => exact .inl rfl
  | teardown _ _ _ _ _ _ _ _ transport => exact .inl transport
  | finish _ readQuiet writeQuiet =>
    exact .inr (.inr (.inr ⟨writeQuiet, .inl readQuiet, s.transportLog_emit _⟩))
  | kick => exact .inl (ContextCore.drain_agrees s.writeQueue s.newDrain).transport
  | armWrite batch => exact .inr (.inl ⟨batch.number, s.transportLog_emit _⟩)
  | writeEnd _ _ _ control => exact .inl control.transport
  | armRead => exact .inr (.inr (.inl ⟨rfl, s.transportLog_emit _⟩))
  | unwindRead =>
    unfold ContextCore.maybeFinishClose
    split
    · rename_i quiet
      exact .inr (.inr (.inr ⟨quiet.2.2, .inr rfl, s.unlatchRead.transportLog_emit _⟩))
    · exact .inl rfl
  | readEnd _ _ _ control => exact .inl control.transport

theorem Latched.no_reading {core : ContextCore} {pending : List Work} (latched : Latched core pending)
    (quiet : core.readRunning = false) : pending.countP Work.isReading = 0 := by
  have bound := isReading_le_readsOf pending
  have none := latched.read
  simp only [quiet, Bool.false_eq_true, if_false] at none
  omega

theorem Latched.no_reading_arming {core : ContextCore} {pending others : List Work}
    (latched : Latched core pending)
    (arming : pending.Perm (.armRead :: others)) : pending.countP Work.isReading = 0 := by
  have count := (latched.permuted arming).read
  have bound := isReading_le_readsOf others
  simp only [readsOf_cons, Work.reads, if_true] at count
  rw [arming.countP_eq, List.countP_cons]
  simp only [Work.isReading, Bool.false_eq_true, if_false]
  split at count <;> omega

theorem ClosedLast.silent {core : ContextCore} (last : ClosedLast core) {before after : List Event}
    (split : core.log = before ++ .descriptorClosed :: after) : after.filter Event.transport = [] := by
  have parts : core.transportLog =
      before.filter Event.transport ++ .descriptorClosed :: after.filter Event.transport := by
    rw [ContextCore.transportLog, split, List.filter_append, List.filter_cons_of_pos rfl]
  have closed : core.phase = .closed := by
    by_contra running
    exact last.before running (by simp [parts])
  obtain ⟨earlier, shape, once⟩ := last.after closed
  rw [shape] at parts
  rcases List.eq_nil_or_concat (after.filter Event.transport) with none | ⟨rest, event, more⟩
  · exact none
  · rw [more, List.concat_eq_append, ← List.cons_append, ← List.append_assoc] at parts
    have same := (List.append_inj' parts rfl).1
    exact absurd (by simp [same]) once

/-- The discipline that the pumps keep with the transport. A read or a write is armed when it is
    pending with the environment; a batch is under way from its kick to its completion. -/
structure Disciplined (s : System) : Prop where
  oneRead : s.pending.countP Work.isReading ≤ 1
  oneWrite : s.pending.countP Work.isWriting ≤ 1
  held : ∀ batch ∈ batchesOf s.pending, s.core.writeInFlight = true ∧
    s.core.writeStaging = drainBytes batch.number s.core.log
  untouched : ∀ action t, s.step action = some t → s.core.writeInFlight = true →
    t.core.writeStaging = s.core.writeStaging
  prepares : ∀ action t, s.step action = some t →
    s.core.log.count .prepared < t.core.log.count .prepared →
    s.pending.countP Work.isReading = 0
  closesOnce : s.core.log.count .descriptorClosed = if s.core.phase = .closed then 1 else 0
  closesQuiet : ∀ action t, s.step action = some t →
    s.core.log.count .descriptorClosed < t.core.log.count .descriptorClosed →
    s.pending.countP Work.isReading = 0 ∧ batchesOf s.pending = [] ∧ s.core.writeInFlight = false
  closed : s.core.phase = .closed → s.pending.countP Work.isReading = 0 ∧ batchesOf s.pending = [] ∧
    ∀ action t, s.step action = some t → t.core.phase = .closed
  silent : ∀ before after, s.core.log = before ++ .descriptorClosed :: after →
    .prepared ∉ after ∧ .readArmed ∉ after ∧ ∀ number, .writeArmed number ∉ after

theorem io_discipline {s : System} (reached : imapContext.Reachable s) : Disciplined s := by
  have run := GuardedRun.of_reachable reached
  have custody := Custody.of_run run
  have latched := Latched.of_run run
  have staging := StagingHeld.of_run run
  have last := ClosedLast.of_run run
  have readBound := Nat.le_trans (isReading_le_readsOf s.pending) (Nat.le_of_eq latched.read)
  have writeBound := Nat.le_trans (isWriting_le_batchesOf s.pending) (Nat.le_of_eq latched.write)
  refine ⟨?_, ?_, ?_, ?_, ?_, ?_, ?_, ?_, ?_⟩
  · refine Nat.le_trans readBound ?_
    split <;> simp
  · refine Nat.le_trans writeBound ?_
    split <;> simp
  · intro batch member
    refine ⟨?_, (staging.held batch member).2⟩
    by_contra off
    simp [latched.no_batch (Bool.not_eq_true _ ▸ off)] at member
  · intro action t stepped flying
    obtain ⟨sec, o, others, -, ran, same, -, -⟩ := System.step_section stepped
    rcases (Section.runs ran).stagings custody.nodup_queue with ⟨-, kept, -⟩ | ⟨-, -, idle, -⟩
    · rw [same, kept]
    · simp [flying] at idle
  · intro action t stepped prepares
    obtain ⟨sec, o, others, -, ran, same, consumed, -⟩ := System.step_section stepped
    rw [count_transport rfl, count_transport rfl, same] at prepares
    rcases (Section.runs ran).controls.transports with kept | ⟨number, armed⟩ | ⟨rfl,
      -⟩ | ⟨-, -, closed⟩
    · simp [kept] at prepares
    · simp [armed] at prepares
    · exact latched.no_reading_arming consumed
    · simp [closed] at prepares
  · rw [count_transport rfl]
    split
    · rename_i closed
      obtain ⟨earlier, shape, once⟩ := last.after closed
      simp [shape, List.count_eq_zero_of_not_mem once]
    · rename_i running
      exact List.count_eq_zero_of_not_mem (last.before running)
  · intro action t stepped closes
    obtain ⟨sec, o, others, -, ran, same, consumed, -⟩ := System.step_section stepped
    rw [count_transport rfl, count_transport rfl, same] at closes
    rcases (Section.runs ran).controls.transports with kept | ⟨number, armed⟩ | ⟨-,
      armed⟩ | ⟨idle, quiet, -⟩
    · simp [kept] at closes
    · simp [armed] at closes
    · simp [armed] at closes
    · refine ⟨?_, latched.no_batch idle, idle⟩
      rcases quiet with quiet | rfl
      · exact latched.no_reading quiet
      · exact latched.no_reading_arming consumed
  · intro closed
    obtain ⟨idle, quiet⟩ := latched.closed closed
    refine ⟨latched.no_reading quiet, latched.no_batch idle, fun action t stepped => ?_⟩
    obtain ⟨sec, o, others, -, ran, same, -, -⟩ := System.step_section stepped
    rw [same]
    exact (Section.runs ran).controls.stays_closed closed
  · intro before after split
    have none := last.silent split
    have absent : ∀ event : Event, event.transport = true → event ∉ after :=
        fun event transport member =>
      List.filter_eq_nil_iff.mp none event member transport
    exact ⟨absent _ rfl, absent _ rfl, fun number => absent _ rfl⟩

def submitted (request : Request) : List Action :=
  [.resume 0 .go, .call .allocateTag, .call (.submit (tagText 1) request 100 true), .resume 3 .go]

/-- The command and a NOOP behind it are submitted before the first drain. -/
def together (first : Request) : List Action :=
  submitted first ++
    [.call .allocateTag, .call (.submit (tagText 2) (.line noopCommand) 200 true), .resume 5 .go,
    .call .flush, .resume 7 .done, .resume 7 .go, .resume 7 .go]

/-- The server asks for the message of the APPEND, with the NOOP behind it. -/
def appendContinued : List Action :=
  together (.append { mailbox := ascii "box", message := ascii "m" }) ++
    [.resume 7 .go, .resume 8 .done, .resume 8 .go, .resume 8 .go, .resume 1 (.data [ascii "+ go"]),
    .resume 1 .go, .resume 1 .go]

def inFlight (request : Request) : List Action :=
  submitted request ++ [Action.call .flush, .resume 5 .done, .resume 5 .go, .resume 5 .go,
    .resume 5 .go]

def noopInFlight : List Action := inFlight (.line noopCommand)

theorem io_discipline_in_flight : ∃ s, imapContext.Reachable s ∧ s.pending.countP Work.isReading = 1 ∧
    s.pending.countP Work.isWriting = 1 ∧ Disciplined s := by
  obtain ⟨s, reached, armed⟩ := imapContext.reachable_of_trace noopInFlight
    (fun s => s.pending.countP Work.isReading == 1 && s.pending.countP Work.isWriting == 1) (by decide)
  simp only [Bool.and_eq_true, beq_iff_eq] at armed
  exact ⟨s, reached, armed.1, armed.2, io_discipline reached⟩

end Bkmail
