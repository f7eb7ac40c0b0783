import Bkmail.Context.Tracks
import Bkmail.Context.Wakeup

namespace Bkmail

namespace ContextCore

/-- A drain gets to no cell behind one that awaits a continuation. -/
theorem reached_pairwise {s : ContextCore} {ops : List OpId} (nodup : ops.Nodup) :
    ops.Pairwise fun q op => op ∈ s.reached ops → (s.cell q).awaitsContinuation = false := by
  induction ops with
  | nil => exact .nil
  | cons q ops ih =>
    obtain ⟨fresh, nodup⟩ := List.nodup_cons.mp nodup
    refine List.pairwise_cons.mpr ⟨fun op member reached => ?_, ?_⟩
    · have other : op ≠ q := fun same => fresh (same ▸ member)
      by_contra awaits
      simp only [Bool.not_eq_false] at awaits
      have unwritten : (s.cell q).isWritten = false := by
        have waits : (s.cell q).command.awaitsContinuation = true := awaits
        simp [Operation.isWritten, waits]
      simp only [ContextCore.reached, unwritten, awaits, Bool.true_or, if_true, Bool.false_eq_true,
        if_false] at reached
      split at reached <;> simp [other] at reached
    · refine (ih nodup).imp_of_mem fun {p op} _ member apart reached => apart ?_
      have other : op ≠ q := fun same => fresh (same ▸ member)
      simp only [ContextCore.reached] at reached
      split at reached
      · exact reached
      · split at reached
        · split at reached
          · simp at reached
          · exact reached
        · split at reached
          · simp [other] at reached
          · exact (List.mem_cons.mp reached).resolve_left other

theorem reached_filled {s : ContextCore} {op : OpId} {ahead behind : List OpId}
    (filled : (s.cell op).nextSegment ≠ [])
    (free : ∀ q ∈ ahead, (s.cell q).awaitsContinuation = false) :
    s.reached (ahead ++ op :: behind) ≠ [] := by
  have unwritten : (s.cell op).isWritten = false := by
    by_contra written
    simp only [Bool.not_eq_false, Operation.isWritten, Bool.and_eq_true, beq_iff_eq] at written
    simp [Operation.nextSegment, written.2] at filled
  induction ahead with
  | nil =>
    simp only [List.nil_append, reached, unwritten, filled, Bool.false_eq_true, if_false]
    split <;> exact List.cons_ne_nil _ _
  | cons q ahead ih =>
    have rest := ih fun p member => free p (List.mem_cons_of_mem _ member)
    simp only [List.cons_append, reached, free q List.mem_cons_self, Bool.false_eq_true, if_false]
    split
    · exact rest
    · split
      · exact rest
      · split <;> exact List.cons_ne_nil _ _

end ContextCore

theorem CellStep.staged {s t : ContextCore} {sec : Section} {op : OpId} (step : CellStep s sec t op) :
    stagedSegments (history op t.log) = stagedSegments (history op s.log) ∨
      sec = .work .kick .go ∧ op ∈ s.reached s.writeQueue := by
  cases step with
  | same _ log | done _ _ _ _ _ _ _ _ _ _ _ _ _ log | detach _ _ _ _ _ _ _ _ _ _ _ log | tagged _ _ _ log =>
    exact .inl (by rw [log])
  | stage ran _ _ reached => exact .inr ⟨ran, reached⟩
  | flush _ _ _ _ _ log | «continue» _ _ _ _ _ _ _ _ _ log => exact .inl (by simp [log])

/-- No cell that awaits a continuation is ahead of one that was staged. -/
def Cleared (core : ContextCore) : Prop :=
  core.writeQueue.Pairwise fun q op => stagedSegments (history op core.log) ≠ [] →
    (core.cell q).awaitsContinuation = false

namespace Cleared

variable {core : ContextCore} {pending others : List Work} {sec : Section} {o : Outcome}

theorem free (runs : sec.Runs core o) (consumed : pending.Perm (sec.consumed ++ others))
    (grounded : Grounded core pending) (routed : Routed core pending) {q : OpId}
    (queued : q ∈ core.writeQueue)
    (free : (core.cell q).awaitsContinuation = false) : (o.core.cell q).awaitsContinuation = false := by
  have custody := grounded.custody
  have step := grounded.cell_step consumed runs (grounded.queue_made queued)
  rcases step.awaits (Stays.running (.inl queued) grounded.ledger consumed)
    with same | ⟨_, p, -, target, found, -⟩
  · exact same.trans free
  · obtain ⟨-, awaits, stays⟩ := routed.route p target
    rw [custody.deref_eq (stays.live custody), Option.some.injEq] at found
    simp [← found, awaits] at free

theorem entering (runs : sec.Runs core o) (consumed : pending.Perm (sec.consumed ++ others))
    (grounded : Grounded core pending) (routed : Routed core pending)
    (lived : Lived core pending) {op : OpId}
    {post : Bool} (enters : sec = .work (.enqueueOperation op post) .go) :
    history op o.core.log = [] := by
  have pends : .enqueueOperation op post ∈ pending :=
    Grounded.consumed_mem consumed (by simp [enters, Section.consumed])
  exact (Lived.unregistered_same routed runs consumed grounded pends).2.trans
    (lived.fresh op post pends).1

theorem preserved (runs : sec.Runs core o) (consumed : pending.Perm (sec.consumed ++ others))
    (grounded : Grounded core pending) (routed : Routed core pending) (lived : Lived core pending)
    (cleared : Cleared core) : Cleared o.core := by
  have old : core.writeQueue.Pairwise fun q op => stagedSegments (history op o.core.log) ≠ [] →
      (o.core.cell q).awaitsContinuation = false := by
    have drained := core.reached_pairwise grounded.custody.nodup_queue
    refine (cleared.and drained).imp_of_mem fun {q op} before queued apart started => ?_
    refine Cleared.free runs consumed grounded routed before ?_
    rcases (grounded.cell_step consumed runs (grounded.queue_made queued)).staged
      with same | ⟨-, reached⟩
    · exact apart.1 (same ▸ started)
    · exact apart.2 reached
  rcases runs.queue with lost | ⟨op, post, enters, -, grown⟩
  · exact old.sublist lost
  · refine List.Pairwise.sublist grown (List.pairwise_append.mpr ⟨old,
      List.pairwise_singleton _ op, ?_⟩)
    intro q _ p new started
    rw [List.mem_singleton.mp new, entering runs consumed grounded routed lived enters] at started
    exact absurd rfl started

theorem of_run {guard : ContextCore → List Work → Section → Prop} {s : System}
    (run : GuardedRun guard s) :
    Cleared s.core :=
  run.invariant (fun core _ => Cleared core) (fun _ _ _ _ cleared => cleared) .nil
    fun _ _ _ _ earlier consumed cleared _ runs =>
      cleared.preserved runs consumed (.of_run earlier) (.of_run earlier) (.of_run earlier)

theorem filled (cleared : Cleared core) {op : OpId} (queued : op ∈ core.writeQueue)
    (started : stagedSegments (history op core.log) ≠ []) (filled : (core.cell op).nextSegment ≠ []) :
    core.reached core.writeQueue ≠ [] := by
  obtain ⟨ahead, behind, queue⟩ := List.append_of_mem queued
  have apart := cleared
  rw [Cleared, queue] at apart
  rw [queue]
  exact ContextCore.reached_filled filled fun q member =>
    (List.pairwise_append.mp apart).2.2 q member op List.mem_cons_self started

end Cleared

/-- What is left to send of a cell whose first segment was staged is going to be staged. -/
def Roused (core : ContextCore) (pending : List Work) : Prop :=
  core.phase = .opened → ∀ op ∈ core.writeQueue, stagedSegments (history op core.log) ≠ [] →
    (core.cell op).nextSegment ≠ [] → Woken core pending

namespace Roused

variable {core : ContextCore} {pending others : List Work} {sec : Section} {o : Outcome}

theorem preserved (runs : sec.Runs core o) (consumed : pending.Perm (sec.consumed ++ others))
    (grounded : Grounded core pending) (routed : Routed core pending) (lived : Lived core pending)
    (cleared : Cleared core) (pathed : Pathed core pending) (allowed : Scheduled core pending sec)
    (roused : Roused core pending) : Roused o.core (o.produced ++ others) := by
  intro opened op queued started filled
  have later := cleared.preserved runs consumed grounded routed lived
  rcases runs.stirs consumed grounded pathed allowed opened with ⟨idle, steady, -⟩ | woken
  · have before : op ∈ core.writeQueue := by
      rcases runs.queue with lost | ⟨q, post, enters, -, grown⟩
      · exact lost.subset queued
      · refine (List.mem_append.mp (grown.subset queued)).resolve_right fun new => started ?_
        rw [List.mem_singleton.mp new, Cleared.entering runs consumed grounded routed lived enters]
        rfl
    rcases (grounded.cell_step consumed runs (grounded.queue_made before)).staged with same | ⟨rfl, -⟩
    · have segment := (steady.flow op before).segment
      have woken := roused (runs.controls.opens opened) op before (same ▸ started) (segment ▸ filled)
      exact woken.carried consumed idle steady.writeInFlight steady.kickPosted
    · cases idle
  · exact woken (later.filled queued started filled)

theorem of_run {s : System} (run : GuardedRun Scheduled s) : Roused s.core s.pending :=
  run.invariant Roused
    (fun _ _ _ perm roused opened op queued started filled =>
    (roused opened op queued started filled).permuted perm)
    (by simp [Roused])
    fun _ _ _ _ earlier consumed roused allowed runs =>
      roused.preserved runs consumed (.of_run earlier) (.of_run earlier) (.of_run earlier)
        (.of_run earlier)
        (.of_run earlier) allowed

theorem at_rest {s : System} (roused : Roused s.core s.pending) (opened : s.core.phase = .opened)
    (quiescent : s.Quiescent)
    (idle : s.core.writeInFlight = false) (unposted : s.core.kickPosted = false) {op : OpId}
    (queued : op ∈ s.core.writeQueue) (started : stagedSegments (history op s.core.log) ≠ []) :
    (s.core.cell op).nextSegment = [] := by
  by_contra filled
  rcases (roused opened op queued started filled).at_rest quiescent with flying | posted
  · simp [idle] at flying
  · simp [unposted] at posted

end Roused

end Bkmail
