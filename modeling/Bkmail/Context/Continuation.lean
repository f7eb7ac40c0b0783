import Bkmail.Context.Replies

namespace Bkmail

/-- The route of a continuation request: it is free or leads to a live cell that awaits one, so no
    request is handed to a disposed cell. A cell that leaves the queue takes the route with it,
    unless a failed write lifts it out: the route to it then stays until `connection_lost`, which
    the cell outlives. -/
structure RouteFresh (s : System) : Prop where
  waits : ∀ p, s.core.continuationTarget = some p →
    p ∈ s.core.live ∧ (s.core.cell p).awaitsContinuation = true
  dispatches : ∀ rest, (s.core.dispatchContinuation rest).core.log = s.core.log ∧
    s.core.continuationTarget = none ∨ ∃ p ∈ s.core.live, s.core.continuationTarget = some p ∧
      (s.core.dispatchContinuation rest).core.log = s.core.log ++ [.continued p]
  extracts : ∀ action sec t, s.section? action = some sec → s.step action = some t →
    ∀ op ∈ s.core.writeQueue, op ∉ t.core.writeQueue →
      (t.core.continuationTarget = some op ↔
      sec.failsWrite = true ∧ s.core.continuationTarget = some op)
  lifts : ∀ p, s.core.continuationTarget = some p → p ∉ s.core.writeQueue →
    ∃ ec retired, p ∈ retired ∧
    (.writeFailed ec retired ∈ s.pending ∨ .writeLost ec retired ∈ s.pending)

theorem Section.Runs.lifts {core : ContextCore} {pending others : List Work} {sec : Section}
    {o : Outcome}
    (runs : sec.Runs core o) (consumed : pending.Perm (sec.consumed ++ others))
    (custody : Custody core pending)
    {op : OpId} (queued : op ∈ core.writeQueue) (lifted : op ∈ liftedOf (o.produced ++ others)) :
    sec.failsWrite = true := by
  have waiting : ∀ work ∈ pending, op ∉ work.lifted := by
    intro work pends lifted
    refine custody.owned_not_queued pends ?_ queued
    cases work <;> simp_all [Work.lifted, Work.owns]
  obtain ⟨work, pends, lifted⟩ := List.mem_flatMap.mp lifted
  rcases List.mem_append.mp pends with produced | other
  · have rooted : work.rooted = true := by
      cases work <;> simp_all [Work.lifted, Work.rooted]
    cases runs.spawns produced rooted with
    | writeError => rfl
    | writeFailed ec retired =>
      exact absurd lifted (waiting (.writeFailed ec retired) (consumed.symm.subset List.mem_cons_self))
    | submit | writeDone | onReadFailed | readLost => simp [Work.lifted] at lifted
  · exact absurd lifted (waiting work (consumed.symm.subset (List.mem_append_right _ other)))

theorem Section.Runs.failsWrite_route {core : ContextCore} {sec : Section} {o : Outcome}
    (runs : sec.Runs core o)
    (fails : sec.failsWrite = true) : o.core.continuationTarget = core.continuationTarget := by
  cases runs with
  | writeError batch ec =>
    simp only [ContextCore.onWriteDone]
    rw [ContextCore.extractAll_eq]
    rfl
  | _ => cases fails

theorem route_fresh {s : System} (reached : imapContext.Reachable s) : RouteFresh s := by
  have run := GuardedRun.of_reachable reached
  have custody := Custody.of_run run
  have routed := Routed.of_run run
  have waits : ∀ p, s.core.continuationTarget = some p →
      p ∈ s.core.live ∧ (s.core.cell p).awaitsContinuation = true := by
    intro p target
    obtain ⟨-, awaits, stays⟩ := routed.route p target
    exact ⟨stays.live custody, awaits⟩
  refine ⟨waits, ?_, ?_, ?_⟩
  · intro rest
    cases target : s.core.continuationTarget with
    | none => exact .inl ⟨by simp [ContextCore.dispatchContinuation, target], rfl⟩
    | some p =>
      have live := (waits p target).1
      have found : { s.core with continuationTarget := none }.deref p = some p := custody.deref_eq live
      refine .inr ⟨p, live, rfl, ?_⟩
      simp [ContextCore.dispatchContinuation, target, found]
  · intro action sec t selected stepped op queued gone
    obtain ⟨sec', o, others, selected', ran, same, consumed, produced⟩ := System.step_section stepped
    cases selected.symm.trans selected'
    have runs := Section.runs ran
    rw [same]
    constructor
    · intro target
      have later := Routed.of_run (GuardedRun.of_reachable (reached.next True.intro stepped))
      have lifted := (later.route op (same ▸ target)).2.2.resolve_left gone
      have fails :=
        runs.lifts consumed custody queued ((produced.flatMap_right Work.lifted).subset lifted)
      exact ⟨fails, (runs.failsWrite_route fails).symm.trans target⟩
    · rintro ⟨fails, target⟩
      exact (runs.failsWrite_route fails).trans target
  · intro p target unqueued
    obtain ⟨work, pends, lifted⟩ :=
      List.mem_flatMap.mp ((routed.route p target).2.2.resolve_left unqueued)
    cases work with
    | writeFailed ec retired => exact ⟨ec, retired, lifted, .inl pends⟩
    | writeLost ec retired => exact ⟨ec, retired, lifted, .inr pends⟩
    | _ => cases lifted

/-- An APPEND whose line is on its way to the server, with the route to it. -/
theorem route_fresh_append : ∃ s, imapContext.Reachable s ∧ s.core.continuationTarget = some 0 ∧
    RouteFresh s := by
  obtain ⟨s, reached, target⟩ := imapContext.reachable_of_trace
    (inFlight (.append { mailbox := ascii "box", message := ascii "m" }))
    (fun s => s.core.continuationTarget == some 0) (by decide)
  exact ⟨s, reached, eq_of_beq target, route_fresh reached⟩

/-- An APPEND is cancelled while its line is on its way to the server, and the write fails: it is
    taken out of the queue, and the route still leads to it. -/
theorem failed_write_keeps_route : ¬ ∀ (s t : System) (action : Action) (op : OpId),
    imapContext.Reachable s → s.step action = some t → (s.core.cell op).detached = true ∨
    (s.core.cell op).isWritten = true → op ∈ s.core.writeQueue → op ∉ t.core.writeQueue →
    s.core.continuationTarget = some op → t.core.continuationTarget ≠ some op := by
  intro claimed
  obtain ⟨s, reached, here⟩ := imapContext.reachable_of_trace
    (inFlight (.append { mailbox := ascii "box", message := ascii "m" }) ++
    [.call (.cancel (tagText 1))])
    (fun s => decide ((s.core.cell 0).detached = true ∧ 0 ∈ s.core.writeQueue ∧
    s.core.continuationTarget = some 0) &&
    (s.step (.resume 6 (.failed .unexpectedResponse))).any fun t : System =>
        decide (0 ∉ t.core.writeQueue ∧ t.core.continuationTarget = some 0)) (by decide)
  obtain ⟨before, after⟩ := Bool.and_eq_true_iff.mp here
  obtain ⟨cancelled, queued, target⟩ := of_decide_eq_true before
  obtain ⟨t, stepped, after⟩ := (Option.any_eq_true _ _).mp after
  obtain ⟨gone, stays⟩ := of_decide_eq_true after
  exact claimed s t _ 0 reached stepped (.inl cancelled) queued gone target stays

end Bkmail
