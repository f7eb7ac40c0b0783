import Bkmail.Context.Rousing
import Bkmail.Automaton.Traces

namespace Bkmail

namespace ContextCore

/-- Nothing can be sent behind a pipeline wall that is written: the first cell behind it that is not
    written, if there is one, waits for a continuation itself. -/
def walled (s : ContextCore) : List OpId → Bool
  | [] => true
  | op :: rest =>
    (!((s.cell op).blocksPipeline && (s.cell op).isWritten) ||
      (rest.find? fun q => !(s.cell q).isWritten).all fun q => (s.cell q).parked) && s.walled rest

theorem reached_parked {s : ContextCore} {ops : List OpId}
    (waits : (ops.find? fun q => !(s.cell q).isWritten).all (fun q => (s.cell q).parked) = true) :
    s.reached ops = [] := by
  induction ops with
  | nil => rfl
  | cons op ops ih =>
    cases written : (s.cell op).isWritten with
    | true =>
      simp only [List.find?_cons, written, Bool.not_true] at waits
      simpa [reached, written] using ih waits
    | false =>
      simp only [List.find?_cons, written, Bool.not_false, Option.all_some, Operation.parked,
        Bool.and_eq_true, beq_iff_eq] at waits
      simp [reached, written, waits.1, waits.2]

theorem mem_reached_cons {s : ContextCore} {op q : OpId} {ops : List OpId}
    (member : q ∈ s.reached (op :: ops)) :
    q = op ∨ q ∈ s.reached ops := by
  simp only [reached] at member
  split at member
  · exact .inr member
  · split at member
    · split at member
      · simp at member
      · exact .inr member
    · split at member
      · exact .inl (List.mem_singleton.mp member)
      · exact List.mem_cons.mp member

/-- A drain does not get past a pipeline wall. -/
theorem reached_walled {s : ContextCore} {op q : OpId} {ahead behind : List OpId}
    (blocks : (s.cell op).blocksPipeline = true) (unstaged : (s.cell op).segmentStaged = false)
    (walled : s.walled (ahead ++ op :: behind) = true)
    (reached : q ∈ s.reached (ahead ++ op :: behind)) :
    q ∈ ahead ∨ q = op := by
  induction ahead with
  | nil =>
    right
    simp only [List.nil_append, ContextCore.walled, blocks, Bool.true_and, Bool.and_eq_true,
      Bool.or_eq_true, Bool.not_eq_true'] at walled
    cases written : (s.cell op).isWritten with
    | true =>
      have none := reached_parked (walled.1.resolve_left (by simp [written]))
      simp [ContextCore.reached, written, none] at reached
    | false =>
      simp only [List.nil_append, ContextCore.reached, written, blocks, Bool.or_true, if_true,
        Bool.false_eq_true, if_false] at reached
      split at reached
      · rename_i segment
        have awaits : (s.cell op).awaitsContinuation = true := by
          by_contra free
          simp_all [Operation.isWritten, Operation.nextSegment, Operation.awaitsContinuation]
        simp [awaits] at reached
      · exact List.mem_singleton.mp reached
  | cons p ahead ih =>
    simp only [List.cons_append, ContextCore.walled, Bool.and_eq_true] at walled
    rcases mem_reached_cons reached with rfl | reached
    · exact .inl List.mem_cons_self
    · exact (ih walled.2 reached).imp_left (List.mem_cons_of_mem p)

end ContextCore

theorem Command.blocksPipeline_flushed (c : Command) :
    c.onSegmentFlushed.blocksPipeline = c.blocksPipeline := by
  cases c <;> rfl

theorem Command.blocksPipeline_continued (c : Command) :
    c.onContinuation.blocksPipeline = c.blocksPipeline := by
  cases c <;> rfl

theorem Command.blocksPipeline_tagged (c : Command) :
    c.afterTagged.blocksPipeline = c.blocksPipeline := by
  cases c <;> rfl

theorem CellStep.blocks {s t : ContextCore} {sec : Section} {op : OpId} (step : CellStep s sec t op) :
    (t.cell op).blocksPipeline = (s.cell op).blocksPipeline := by
  cases step with
  | same wire | stage _ _ _ _ wire | detach _ _ _ _ _ _ _ _ _ _ wire => exact wire.blocksPipeline
  | flush _ _ _ _ wire => exact wire.blocksPipeline.trans (Command.blocksPipeline_flushed _)
  | «continue» _ _ _ _ _ _ _ _ wire =>
      exact wire.blocksPipeline.trans (Command.blocksPipeline_continued _)
  | done _ _ _ _ _ _ _ _ _ _ _ shape wire =>
    exact wire.blocksPipeline.trans (congrArg Command.blocksPipeline shape).symm
  | tagged _ _ wire => exact wire.blocksPipeline.trans (Command.blocksPipeline_tagged _)

def Section.drains (core : ContextCore) : Section → Bool
  | .work .kick _ => core.phase == .opened && !core.writeInFlight
  | _ => false

/-- No drain runs behind a pipeline wall that is written, as long as there is something behind it to
    send. -/
def Walled (core : ContextCore) (_ : List Work) (sec : Section) : Prop :=
  sec.drains core = true → core.walled core.writeQueue = true

instance (core : ContextCore) (pending : List Work) (sec : Section) :
    Decidable (Walled core pending sec) :=
  inferInstanceAs (Decidable (_ → _))

/-- The segment is not of an operation behind `op` in the order, when one of `op` went before it. -/
def Unpassed (order : List OpId) (op : OpId) (before : List (Nat × OpId × Bytes))
    (staging : Nat × OpId × Bytes) : Prop :=
  op ∈ before.map (·.2.1) → ¬ [op, staging.2.1].Sublist order

/-- Nothing was staged of an operation behind a pipeline wall, from the staging of the wall's first
    segment until it leaves the queue. -/
structure Sealed (core : ContextCore) : Prop where
  submitted : ∀ staging ∈ stagings core.log, staging.2.1 ∈ enqueuedOps core.log
  unpassed : ∀ op ∈ core.writeQueue, (core.cell op).blocksPipeline = true →
    Automaton.Causal (Unpassed (enqueuedOps core.log) op) (stagings core.log)

namespace Sealed

variable {core : ContextCore} {pending others : List Work} {sec : Section} {o : Outcome}

theorem unstaged (grounded : Grounded core pending) (idle : core.writeInFlight = false) {op : OpId}
    (queued : op ∈ core.writeQueue) : (core.cell op).segmentStaged = false := by
  by_contra staged
  obtain ⟨batch, token, -⟩ := grounded.batched.staged op queued (Bool.not_eq_false _ ▸ staged)
  simp [grounded.latched.no_batch idle] at token

theorem not_behind (grounded : Grounded core pending) (idle : core.writeInFlight = false)
    (walled : core.walled core.writeQueue = true) {op q : OpId} (queued : op ∈ core.writeQueue)
    (blocks : (core.cell op).blocksPipeline = true) (reached : q ∈ core.reached core.writeQueue) :
    ¬ [op, q].Sublist (enqueuedOps core.log) := by
  have enlisted := grounded.enlisted
  obtain ⟨ahead, behind, queue⟩ := List.append_of_mem queued
  rw [queue] at walled reached
  rcases ContextCore.reached_walled blocks (unstaged grounded idle queued) walled reached
    with before | rfl
  · have order : [q, op].Sublist core.writeQueue := by
      rw [queue]
      exact (List.singleton_sublist.mpr before).append (List.singleton_sublist.mpr List.mem_cons_self)
    exact Automaton.pair_sublist_asymm enlisted.nodup (order.trans enlisted.ordered)
  · intro twice
    simpa using twice.nodup enlisted.nodup

theorem preserved (runs : sec.Runs core o) (consumed : pending.Perm (sec.consumed ++ others))
    (grounded : Grounded core pending) (walled : Walled core pending sec) (sealed : Sealed core) :
    Sealed o.core := by
  have enlisted := grounded.enlisted
  have earlier : ∀ op ∈ core.writeQueue, (o.core.cell op).blocksPipeline = true →
      Automaton.Causal (Unpassed (enqueuedOps core.log) op) (stagings core.log) :=
      fun op queued blocks =>
    sealed.unpassed op queued
      ((grounded.cell_step consumed runs (grounded.queue_made queued)).blocks ▸ blocks)
  rcases runs.stagings grounded.custody.nodup_queue with ⟨same, -, -⟩ | ⟨rfl, opened, idle, kicked⟩
  · rcases runs.enqueues with ⟨order, lost⟩ | ⟨new, post, rfl, -, order, grown⟩
    · refine ⟨fun staging member => order ▸ sealed.submitted staging (same ▸ member),
        fun op queued blocks => ?_⟩
      rw [order, same]
      exact earlier op (lost.subset queued) blocks
    · have fresh : new ∉ enqueuedOps core.log := fun member =>
        enlisted.once new member post (Grounded.consumed_mem consumed List.mem_cons_self)
      refine ⟨fun staging member => ?_, fun op queued blocks => ?_⟩
      · rw [order]
        exact List.mem_append_left _ (sealed.submitted staging (same ▸ member))
      · rw [order, same]
        rcases List.mem_append.mp (grown.subset queued) with old | entered
        · refine (earlier op old blocks).mono fun before staging member allowed passed behind => ?_
          have different : staging.2.1 ≠ new :=
            fun entered => fresh (entered ▸ sealed.submitted staging member)
          exact allowed passed (Automaton.pair_sublist_snoc behind different)
        · intro before staging after split passed
          obtain ⟨first, member, own⟩ := List.mem_map.mp passed
          rw [List.mem_singleton.mp entered] at own
          exact absurd (own ▸ sealed.submitted first (by simp [split, member])) fresh
  · have order : enqueuedOps o.core.log = enqueuedOps core.log := by
      rcases runs.enqueues with ⟨order, -⟩ | ⟨_, _, enters, -⟩
      · exact order
      · cases enters
    have reached : ∀ staging ∈ (core.reached core.writeQueue).map fun op =>
        (core.drains + 1, op, (core.cell op).nextSegment),
          staging.2.1 ∈ core.reached core.writeQueue := by
      simp
    have wall := walled (by simp [Section.drains, opened, idle])
    refine ⟨?_, fun op queued blocks => ?_⟩
    · intro staging member
      rw [kicked.stagings] at member
      rw [order]
      rcases List.mem_append.mp member with old | new
      · exact sealed.submitted staging old
      · exact enlisted.ordered.subset ((ContextCore.reached_sublist _ _).subset (reached staging new))
    · rw [order, kicked.stagings]
      have queued : op ∈ core.writeQueue := kicked.queue ▸ queued
      have before := (grounded.cell_step consumed runs (grounded.queue_made queued)).blocks ▸ blocks
      refine (sealed.unpassed op queued before).append fun earlier staging after split _ => ?_
      exact not_behind grounded idle wall queued before (reached staging (by simp [split]))

theorem of_run {s : System} (run : GuardedRun Walled s) : Sealed s.core :=
  run.invariant (fun core _ => Sealed core) (fun _ _ _ _ sealed => sealed) ⟨by simp [stagings], by simp⟩
    fun _ _ _ _ earlier consumed sealed walled runs =>
      sealed.preserved runs consumed (.of_run earlier) walled

end Sealed

/-- No byte goes out behind a pipeline wall while it stays in the queue. -/
theorem pipeline_wall {s : System} (run : GuardedRun Walled s) {op : OpId}
    (queued : op ∈ s.core.writeQueue)
    (blocks : (s.core.cell op).blocksPipeline = true) :
    Automaton.Causal (Unpassed (enqueuedOps s.core.log) op) (stagings s.core.log) :=
  (Sealed.of_run run).unpassed op queued blocks

/-- A NOOP is flushed together with a STARTTLS, and only the STARTTLS is staged. -/
theorem pipeline_wall_starttls : ∃ s, GuardedRun Walled s ∧ s.core.writeQueue = [0, 1] ∧
    (s.core.cell 0).blocksPipeline = true ∧ stagings s.core.log = [(1, 0, ascii "a0001 STARTTLS\r\n")] ∧
      Automaton.Causal (Unpassed (enqueuedOps s.core.log) 0) (stagings s.core.log) := by
  obtain ⟨s, run, here⟩ := GuardedRun.of_trace Walled (together (.line starttlsCommand))
    (fun s => decide (s.core.writeQueue = [0, 1] ∧ (s.core.cell 0).blocksPipeline = true ∧
      stagings s.core.log = [(1, 0, ascii "a0001 STARTTLS\r\n")])) (by decide)
  obtain ⟨queue, blocks, staged⟩ := of_decide_eq_true here
  have queued : 0 ∈ s.core.writeQueue := queue ▸ List.mem_cons_self
  exact ⟨s, run, queue, blocks, staged, pipeline_wall run queued blocks⟩

/-- A NOOP is submitted and flushed behind a STARTTLS that is written and not answered yet. -/
def behindStarttls : List Action :=
  flushed (.line starttlsCommand) ++
    [.call .allocateTag, .call (.submit (tagText 2) (.line noopCommand) 200 true), .resume 8 .go,
    .call .flush, .resume 10 .done, .resume 10 .go, .resume 10 .go]

/-- The NOOP is staged behind the STARTTLS. -/
theorem behind_starttls_staged : ¬ ∀ s, imapContext.Reachable s → ∀ op ∈ s.core.writeQueue,
    (s.core.cell op).blocksPipeline = true →
      Automaton.Causal (Unpassed (enqueuedOps s.core.log) op) (stagings s.core.log) := by
  intro claimed
  obtain ⟨s, reached, here⟩ := imapContext.reachable_of_trace behindStarttls
    (fun s => decide (0 ∈ s.core.writeQueue ∧ (s.core.cell 0).blocksPipeline = true ∧
      stagings s.core.log = [(1, 0, ascii "a0001 STARTTLS\r\n"), (3, 1, ascii "a0002 NOOP\r\n")] ∧
        enqueuedOps s.core.log = [0, 1])) (by decide)
  obtain ⟨queued, blocks, staged, order⟩ := of_decide_eq_true here
  refine claimed s reached 0 queued blocks [_] _ [] staged ?_ ?_
  · simp
  · simp [order]

end Bkmail
