import Bkmail.Context.Transport

namespace Bkmail

/-- Every queued cell is in the write that is under way. -/
def ContextCore.Settled (s : ContextCore) : Prop := ∀ op ∈ s.writeQueue, (s.cell op).isStaged = true

instance (s : ContextCore) : Decidable s.Settled := inferInstanceAs (Decidable (∀ op ∈ s.writeQueue, _))

/-- The session is ended by `close()` or by the connection, not by destroying or moving the
    context. -/
def Section.closing : Section → Bool
  | .call .abandon | .call .suspendReadForRelocation => false
  | _ => true

/-- The end of a read that does not go through `connection_lost`: the pump is not armed again. -/
def Section.windsDown : Section → Bool
  | .work .rearm _ | .work .armRead _ => true
  | _ => false

def Section.finishes : Section → Bool
  | .work .maybeFinishClose _ => true
  | _ => false

def Work.loses : Work → Bool
  | .connectionLost _ => true
  | _ => false

/-- The read side dies in a drain without `connection_lost` only once nothing written is queued,
    and the descriptor is not closed ahead of a `connection_lost` that has something to fail. -/
def Orderly (core : ContextCore) (pending : List Work) (sec : Section) : Prop :=
  (sec.windsDown = true → core.phase = .draining → core.Settled) ∧
    (sec.finishes = true → core.phase = .draining → core.readRunning = false →
    core.writeInFlight = false → pending.any Work.loses = true → core.Settled)

instance (core : ContextCore) (pending : List Work) (sec : Section) :
    Decidable (Orderly core pending sec) :=
  inferInstanceAs (Decidable (_ ∧ _))

namespace Section

theorem Runs.settled {s : ContextCore} {sec : Section} {o : Outcome} (runs : sec.Runs s o)
    (phase : s.phase ≠ .opened) (bound : ∀ op ∈ s.writeQueue, op < s.made) (settled : s.Settled) :
    o.core.Settled := by
  obtain ⟨acted, acts, quiet⟩ := runs.acts
  intro op queued
  have here : op ∈ s.writeQueue := by
    rcases runs.queue with lost | ⟨_, _, _, opened, _⟩
    · exact lost.subset queued
    · exact absurd opened phase
  have kept := (quiet.cells op).segmentStaged.trans
    (acts.keeps_staged (fun opened => absurd opened phase) (bound op here))
  exact kept.trans (settled op here)

theorem Controls.read_latch {s : ContextCore} {sec : Section} {o : Outcome}
    (controls : sec.Controls s o) :
    o.core.readRunning = s.readRunning ∨ sec.EndsRead s ∨
      sec = .work .armRead .go ∧ (s.phase ≠ .opened ∨ s.abandoned = true ∨ s.suspendRead = true) := by
  cases controls with
  | idle _ _ control => exact .inl control.readRunning
  | teardown _ _ _ _ _ _ reading => exact .inl reading
  | kick => exact .inl (ContextCore.drain_agrees s.writeQueue s.newDrain).readRunning
  | writeEnd _ _ _ control => exact .inl control.readRunning
  | unwindRead unwinds => exact .inr (.inr ⟨rfl, unwinds⟩)
  | readEnd _ _ ends => exact .inr (.inl ends)
  | _ => exact .inl rfl

theorem Controls.suspends {s : ContextCore} {sec : Section} {o : Outcome}
    (controls : sec.Controls s o) :
    o.core.suspendRead = s.suspendRead ∨ sec = .call .suspendReadForRelocation := by
  cases controls with
  | idle _ _ control => exact .inl control.suspendRead
  | suspend => exact .inr rfl
  | teardown _ _ _ _ _ _ _ suspended => exact .inl suspended
  | kick => exact .inl (ContextCore.drain_agrees s.writeQueue s.newDrain).suspendRead
  | writeEnd _ _ _ control => exact .inl control.suspendRead
  | unwindRead =>
    left
    unfold ContextCore.maybeFinishClose
    split <;> rfl
  | readEnd _ _ _ control => exact .inl control.suspendRead
  | _ => exact .inl rfl

/-- The phase becomes closed where the descriptor is closed, with both pumps quiet. -/
theorem Controls.closes {s : ContextCore} {sec : Section} {o : Outcome} (controls : sec.Controls s o)
    (closed : o.core.phase = .closed) :
    s.phase = .closed ∨ s.phase = .draining ∧ s.writeInFlight = false ∧
      o.core.writeQueue = s.writeQueue ∧
        (sec = .work .maybeFinishClose .go ∧ s.readRunning = false ∨ sec = .work .armRead .go) := by
  cases controls with
  | idle _ _ control => exact .inl (control.phase ▸ closed)
  | suspend => exact .inl closed
  | teardown _ _ _ draining => simp [draining] at closed
  | finish draining readQuiet writeQuiet =>
      exact .inr ⟨draining, writeQuiet, rfl, .inl ⟨rfl, readQuiet⟩⟩
  | kick opened =>
    have phase := (ContextCore.drain_agrees s.writeQueue s.newDrain).phase
    exact .inl (phase ▸ closed)
  | armWrite => exact .inl closed
  | writeEnd _ _ _ control => exact .inl (control.phase ▸ closed)
  | armRead => exact .inl closed
  | unwindRead =>
    unfold ContextCore.maybeFinishClose at closed ⊢
    split at closed
    · rename_i quiet
      rw [if_pos quiet]
      exact .inr ⟨quiet.1, quiet.2.2, rfl, .inr rfl⟩
    · exact .inl closed
  | readEnd _ _ _ control => exact .inl (control.phase ▸ closed)

end Section

theorem ContextCore.connectionLost_settled (s : ContextCore) (ec : ErrorCode)
    (running : s.phase ≠ .closed) :
    (s.connectionLost ec).core.phase = .draining ∧ (s.connectionLost ec).core.Settled := by
  unfold connectionLost
  rw [if_neg running]
  refine ⟨rfl, fun op queued => ?_⟩
  have staged : (s.cell op).isStaged = true := by simpa using (List.mem_filter.mp queued).2
  exact staged

/-- Outside the closed phase someone is still going to take what `close()` left in the queue:
    the read side, or a `connection_lost` under way; or there is nothing left to take. -/
structure Attended (core : ContextCore) (pending : List Work) : Prop where
  present : core.abandoned = false
  unsuspended : core.suspendRead = false
  attended : core.phase ≠ .closed → core.readRunning = true ∨ core.phase = .draining ∧ core.Settled ∨
    ∃ ec, .connectionLost ec ∈ pending
  stopped : .readStop ∈ pending → core.phase = .closed ∨ core.phase = .draining ∧ core.Settled
  empty : core.phase = .closed → core.writeQueue = []

namespace Attended

variable {core : ContextCore} {pending : List Work}

theorem permuted {after : List Work} (perm : pending.Perm after) (attended : Attended core pending) :
    Attended core after :=
  { attended with
    attended := fun running => (attended.attended running).imp_right fun rest => rest.imp_right
      fun ⟨ec, pends⟩ => ⟨ec, perm.subset pends⟩
    stopped := fun pends => attended.stopped (perm.symm.subset pends) }

theorem initial : Attended {} [.armRead] := ⟨rfl, rfl, fun _ => .inl rfl, by simp, by simp⟩

theorem queue_empty (latched : Latched core pending) (batched : Batched core pending)
    (quiet : core.writeInFlight = false) (settled : core.Settled) : core.writeQueue = [] := by
  refine List.eq_nil_iff_forall_not_mem.mpr fun op queued => ?_
  obtain ⟨batch, member, -⟩ := batched.staged op queued (settled op queued)
  simp [latched.no_batch quiet] at member

theorem preserved {sec : Section} {others : List Work} {o : Outcome} (runs : sec.Runs core o)
    (consumed : pending.Perm (sec.consumed ++ others)) (custody : Custody core pending)
    (latched : Latched core pending) (batched : Batched core pending) (scope : sec.closing = true)
    (orderly : Orderly core pending sec) (attended : Attended core pending) :
    Attended o.core (o.produced ++ others) := by
  have bound : ∀ op ∈ core.writeQueue, op < core.made := fun op queued =>
    custody.made op (custody.queue_live queued)
  have controls := runs.controls
  have settles : core.phase = .closed ∨ core.phase = .draining ∧ core.Settled →
      o.core.phase = .closed ∨ o.core.phase = .draining ∧ o.core.Settled := by
    rintro (closed | ⟨draining, settled⟩)
    · exact .inl (controls.stays_closed closed)
    · have phase : core.phase ≠ .opened := by simp [draining]
      have settled := runs.settled phase bound settled
      cases later : o.core.phase with
      | opened => exact absurd (controls.opens later) phase
      | closed => exact .inl rfl
      | draining => exact .inr ⟨rfl, settled⟩
  have lost : ∀ ec, (core.connectionLost ec).core.phase = .closed ∨
      (core.connectionLost ec).core.phase = .draining ∧ (core.connectionLost ec).core.Settled := by
    intro ec
    by_cases closed : core.phase = .closed
    · exact .inl (by simp [ContextCore.connectionLost, closed])
    · exact .inr (core.connectionLost_settled ec closed)
  have drained : core.phase ≠ .opened → (core.phase = .draining → core.Settled) →
      core.phase = .closed ∨ core.phase = .draining ∧ core.Settled := by
    intro left settled
    cases phase : core.phase with
    | opened => exact absurd phase left
    | draining => exact .inr ⟨rfl, settled phase⟩
    | closed => exact .inl rfl
  refine ⟨?_, ?_, ?_, ?_, ?_⟩
  · rcases runs.abandons with same | ⟨rfl, -⟩
    · rw [same, attended.present]
    · cases scope
  · rcases controls.suspends with same | rfl
    · rw [same, attended.unsuspended]
    · cases scope
  · intro running
    have earlier : core.phase ≠ .closed := fun closed => running (controls.stays_closed closed)
    have settled : core.phase = .closed ∨ core.phase = .draining ∧ core.Settled →
        o.core.readRunning = true ∨ o.core.phase = .draining ∧ o.core.Settled ∨
          ∃ ec, .connectionLost ec ∈ o.produced ++ others := fun before =>
      .inr (.inl ((settles before).resolve_left running))
    rcases attended.attended earlier with reading | quiet | ⟨ec, pends⟩
    · rcases controls.read_latch with same | ends | ⟨rfl, unwinds⟩
      · exact .inl (same.trans reading)
      · cases ends with
        | ignored choice gone => simp [attended.present, earlier] at gone
        | failed ec =>
          cases runs
          exact .inr (.inr ⟨_, List.mem_append_left _ (List.mem_singleton.mpr rfl)⟩)
        | stopped => exact settled (attended.stopped (consumed.symm.subset List.mem_cons_self))
        | unarmed left =>
          simp only [attended.unsuspended, Bool.false_eq_true, or_false] at left
          exact settled (drained left (orderly.1 rfl))
      · simp only [attended.present, attended.unsuspended, Bool.false_eq_true, or_false] at unwinds
        exact settled (drained unwinds (orderly.1 rfl))
    · exact settled (.inr quiet)
    · rcases List.mem_append.mp (consumed.subset pends) with here | other
      · cases sec with
        | call => simp [Section.consumed] at here
        | work w choice =>
          simp only [Section.consumed, List.mem_singleton] at here
          subst here
          cases runs
          exact .inr (.inl ((lost ec).resolve_left running))
      · exact .inr (.inr ⟨ec, List.mem_append_right _ other⟩)
  · intro pends
    rcases List.mem_append.mp pends with new | old
    · cases runs.spawns new rfl
      cases runs
      exact lost .unexpectedResponse
    · exact settles (attended.stopped (consumed.symm.subset (List.mem_append_right _ old)))
  · intro closed
    rcases controls.closes closed with already | ⟨draining, idle, same, how⟩
    · rcases runs.queue with smaller | ⟨_, _, _, opened, _⟩
      · rw [attended.empty already] at smaller
        exact List.sublist_nil.mp smaller
      · simp [already] at opened
    · rw [same]
      refine queue_empty latched batched idle ?_
      rcases how with ⟨rfl, quiet⟩ | rfl
      · rcases attended.attended (by simp [draining]) with reading | ⟨-, settled⟩ | coming
        · simp [quiet] at reading
        · exact settled
        · obtain ⟨ec, pends⟩ := coming
          exact orderly.2 rfl draining quiet idle (List.any_eq_true.mpr ⟨_, pends, rfl⟩)
      · exact orderly.1 rfl draining

theorem of_run {s : System}
    (run : GuardedRun (fun core pending sec => sec.closing = true ∧ Orderly core pending sec) s) :
    Attended s.core s.pending :=
  run.invariant Attended (fun _ _ _ perm attended => attended.permuted perm) initial
    fun _ _ _ _ earlier consumed attended allowed runs =>
      attended.preserved runs consumed (.of_run earlier)
      (.of_run earlier) (.of_run earlier) allowed.1 allowed.2

end Attended

def Work.delivers : Work → List OpId
  | .enqueueOperation .. => []
  | w => w.owes

def deliveries (s : System) : List OpId :=
  s.core.log.flatMap Event.ends ++ s.pending.flatMap Work.delivers

/-- Nothing is queued, and every operation that was has exactly one terminal delivery. -/
def Completed (s : System) : Prop :=
  s.core.writeQueue = [] ∧ ∀ op, .enqueued op ∈ s.core.log → (deliveries s).count op = 1

theorem count_delivers {pending : List Work} {op : OpId}
    (registered : ∀ post, .enqueueOperation op post ∉ pending) :
    (pending.flatMap Work.delivers).count op = (pending.flatMap Work.owes).count op := by
  rw [List.count_flatMap, List.count_flatMap]
  refine congrArg List.sum (List.map_congr_left fun w member => ?_)
  cases w with
  | enqueueOperation other post =>
    have different : other ≠ op := by
      rintro rfl
      exact registered post member
    simp [Work.delivers, Work.owes, different]
  | _ => rfl

/-- In a run whose every step is orderly, `close()` and the loss of the connection lose no
    operation. -/
theorem close_completes {s : System}
    (run : GuardedRun (fun core pending sec => sec.closing = true ∧ Orderly core pending sec) s)
    (closed : s.core.phase = .closed) : Completed s := by
  have attended := Attended.of_run run
  have enlisted := Enlisted.of_run run
  obtain ⟨dropped, account, kept⟩ := (Ledger.of_run run).account
  have empty := attended.empty closed
  refine ⟨empty, fun op logged => ?_⟩
  have member := mem_enqueuedOps.mpr logged
  have total := account.count_eq op
  rw [kept attended.present, empty, List.append_nil, List.nil_append, List.count_append,
    List.nodup_range.count, if_pos (List.mem_range.mpr (enlisted.bound op member))] at total
  rw [deliveries, List.count_append, count_delivers (enlisted.once op member), Nat.add_comm]
  exact total

def closeAfterWrite (completion : Choice) : List Action :=
  noopInFlight ++ [Action.resume 6 .done, .resume 6 .go, .resume 6 .go, .call .close, .resume 7 .go,
    .resume 7 .go, .resume 1 completion, .resume 1 .go, .resume 1 .go, .resume 1 .go, .resume 1 .go,
    .resume 1 .go]

theorem close_completes_eof : ∃ s, s.core.phase = .closed ∧ .enqueued 0 ∈ s.core.log ∧ Completed s := by
  obtain ⟨s, run, closed⟩ := GuardedRun.of_trace
    (fun core pending sec => sec.closing = true ∧ Orderly core pending sec) (closeAfterWrite .eof)
    (fun s => decide (s.core.phase = .closed ∧ .enqueued 0 ∈ s.core.log)) (by decide)
  have closed := of_decide_eq_true closed
  exact ⟨s, closed.1, closed.2, close_completes run closed.1⟩

/-- A read that completes with data in the drain ends the read side without failing the NOOP. -/
theorem close_loses_written :
    ¬ ∀ s, GuardedRun (fun _ _ sec => sec.closing = true) s → s.core.phase = .closed → Completed s := by
  intro claimed
  obtain ⟨s, run, lost⟩ := GuardedRun.of_trace (fun _ _ sec => sec.closing = true)
    (closeAfterWrite (.data [ascii "* OK still here"]))
    (fun s => decide (s.core.phase = .closed ∧ s.core.writeQueue = [0])) (by decide)
  have lost := of_decide_eq_true lost
  simpa [lost.2] using (claimed s run lost.1).1

end Bkmail
