import Bkmail.Context.Ledger

namespace Bkmail

namespace Section

theorem Runs.batch_source {s : ContextCore} {sec : Section} {o : Outcome} (runs : sec.Runs s o)
    {batch : Batch}
    (member : batch ∈ batchesOf o.produced) :
    batch ∈ batchesOf sec.consumed ∨ sec = .work .kick .go ∧ s.writeInFlight = false ∧
      o.core.drains = s.drains + 1 ∧ batch = ⟨s.drains + 1, (s.newDrain.drain s.writeQueue).2⟩ := by
  cases runs.controls with
  | idle _ _ _ same | teardown _ _ _ _ _ _ _ _ _ same =>
    rw [same] at member
    exact .inl member
  | kick opened idle =>
    have drains := (ContextCore.drain_agrees s.writeQueue s.newDrain).drains
    simp only [Outcome.produced, List.append_nil, batchesOf_cons, batchesOf_nil, Work.batch?,
      Option.toList_some, List.mem_singleton, drains] at member
    exact .inr ⟨rfl, idle, drains, member⟩
  | armWrite batch => exact .inl member
  | writeEnd _ _ _ _ _ none | readEnd _ _ _ _ _ none => simp [none] at member
  | _ => simp [Outcome.produced, Work.batch?] at member

theorem Acts.keeps_staged {s t : ContextCore} {sec : Section} (acts : sec.Acts s t)
    (other : s.phase = .opened → sec ≠ .work .kick .go ∧ ∀ batch, sec ≠ .work (.writeFlushed batch) .go)
    {op : OpId} (made : op < s.made) : (t.cell op).segmentStaged = (s.cell op).segmentStaged := by
  have modified : ∀ (s : ContextCore) (q : OpId) (change : Operation → Operation),
      (∀ c, (change c).segmentStaged = c.segmentStaged) →
      ((s.modify q change).cell op).segmentStaged = (s.cell op).segmentStaged := by
    intro s q change keeps
    by_cases same : op = q
    · subst same
      simp [keeps]
    · simp [same]
  cases acts with
  | attach => simp [ContextCore.attach, Function.update_of_ne (Nat.ne_of_lt made)]
  | requestDone => exact modified _ _ _ fun _ => rfl
  | detach => exact modified _ _ _ fun _ => rfl
  | onTagged => exact modified _ _ _ fun _ => rfl
  | continuation => exact modified _ _ _ fun _ => rfl
  | kick opened => exact absurd rfl (other opened).1
  | flush batch opened => exact absurd rfl ((other opened).2 batch)
  | _ => rfl

theorem Runs.queue {s : ContextCore} {sec : Section} {o : Outcome} (runs : sec.Runs s o) :
    o.core.writeQueue.Sublist s.writeQueue ∨
      ∃ op post, sec = .work (.enqueueOperation op post) .go ∧ s.phase = .opened ∧
        o.core.writeQueue.Sublist (s.writeQueue ++ [op]) := by
  obtain ⟨acted, acts, quiet⟩ := runs.acts
  have lost := quiet.queue
  cases acts with
  | enqueue op post opened => exact .inr ⟨op, post, rfl, opened, lost⟩
  | kick =>
    rw [ContextCore.drain_queue] at lost
    exact .inl lost
  | flush batch =>
    refine .inl (lost.trans ?_)
    exact ContextCore.flushLoop_sublist batch.number batch.ops s.unlatchWrite
  | _ => exact .inl lost

/-- What becomes of the staging flag of a cell: it is kept, cleared by a flush while the cell is
    queued, or set by a kick that leaves the cell's batch to be written. -/
theorem Runs.staged_cases {s : ContextCore} {sec : Section} {o : Outcome} (runs : sec.Runs s o)
    (nodup : s.writeQueue.Nodup)
    (apart : ∀ batch ∈ batchesOf sec.consumed, s.Apart batch.ops) {op : OpId}
    (made : op < s.made) :
    (o.core.cell op).segmentStaged = (s.cell op).segmentStaged ∨
      op ∈ s.writeQueue ∧ (o.core.cell op).segmentStaged = false ∨
      op ∈ s.writeQueue ∧ ∃ batch ∈ batchesOf o.produced, op ∈ batch.ops := by
  obtain ⟨acted, acts, quiet⟩ := runs.acts
  have other : sec ≠ .work .kick .go → (∀ batch, sec ≠ .work (.writeFlushed batch) .go) →
      (o.core.cell op).segmentStaged = (s.cell op).segmentStaged := fun kicks flushes =>
    (quiet.cells op).segmentStaged.trans (acts.keeps_staged (fun _ => ⟨kicks, flushes⟩) made)
  cases runs with
  | kick =>
    have drained := ContextCore.drain_drained s.newDrain s.writeQueue nodup
    have reached := ContextCore.reached_sublist s.newDrain s.writeQueue
    unfold ContextCore.kick
    split
    · exact .inl rfl
    · simp only
      by_cases staged : op ∈ s.newDrain.reached s.writeQueue
      · have segment := ContextCore.reached_segment staged
        have filled : (s.newDrain.drain s.writeQueue).1.writeStaging ≠ [] := by
          rw [drained.staging]
          intro empty
          have none := List.flatMap_eq_nil_iff.mp (List.append_eq_nil_iff.mp empty).2
          exact segment (none op staged)
        rw [if_neg filled]
        refine .inr (.inr ⟨reached.subset staged, _, List.mem_singleton.mpr rfl, ?_⟩)
        rw [drained.staged]
        exact staged
      · left
        split <;> simp [drained.cell, staged]
  | writeFlushed batch =>
    unfold ContextCore.writeFlushed
    split
    · have flushed := ContextCore.flushLoop_flushed batch.number batch.ops s.unlatchWrite nodup
        (apart batch (by simp [consumed, Work.batch?]))
      by_cases hit : op ∈ s.unlatchWrite.hits batch.ops
      · refine .inr (.inl ⟨(ContextCore.mem_hits hit).1, ?_⟩)
        simp only [flushed.cell, hit, if_true, Operation.onSegmentFlushed]
      · left
        simp [flushed.cell, hit]
    · exact .inl (by simp)
  | _ => exact .inl (other (by simp) (by simp))

/-- Once a section has ended a write, the cells it hit are out of the queue, or they are flushed and
    were not to be retired with this flush. -/
theorem Runs.settles {s : ContextCore} {sec : Section} {o : Outcome} (runs : sec.Runs s o)
    {batch : Batch}
    (token : batch ∈ batchesOf sec.consumed) (nodup : s.writeQueue.Nodup) (apart : s.Apart batch.ops) :
    batch ∈ batchesOf o.produced ∨ ∀ op ∈ s.hits batch.ops, op ∈ o.core.writeQueue →
      (o.core.cell op).segmentStaged = false ∧ ContextCore.retires (s.cell op) = false := by
  have extracted :
      ∀ op ∈ s.hits batch.ops, op ∉ (s.unlatchWrite.extractAll batch.ops).1.writeQueue := by
    intro op hit queued
    obtain ⟨-, queue⟩ := ContextCore.extractAll_spec batch.ops s.unlatchWrite nodup apart
    rw [queue, List.mem_filter] at queued
    have found : op ∈ s.unlatchWrite.hits batch.ops := hit
    simp [found] at queued
  have same : ∀ w choice, sec = .work w choice → w.batch? = some batch := by
    rintro w choice rfl
    simpa [consumed] using token
  cases runs with
  | writeDone other =>
    cases (same _ _ rfl : some other = some batch)
    left
    cases gone : s.abandoned <;> simp [ContextCore.onWriteDone, Outcome.produced, gone, Work.batch?]
  | writeError other ec =>
    cases (same _ _ rfl : some other = some batch)
    exact .inr fun op hit queued => absurd queued (extracted op hit)
  | writeQuiet other =>
    cases (same _ _ rfl : some other = some batch)
    exact .inr fun op hit queued => absurd queued (extracted op hit)
  | armWrite other =>
    cases (same _ _ rfl : some other = some batch)
    unfold ContextCore.armWrite
    split
    · exact .inr fun op hit queued => absurd queued (extracted op hit)
    · left
      simp [Outcome.produced, Work.batch?]
  | writeFlushed other =>
    cases (same _ _ rfl : some other = some batch)
    unfold ContextCore.writeFlushed
    split
    · refine .inr fun op hit queued => ?_
      have flushed := ContextCore.flushLoop_flushed batch.number batch.ops s.unlatchWrite nodup apart
      have found : op ∈ s.unlatchWrite.hits batch.ops := hit
      simp only [flushed.cell, found, if_true, Operation.onSegmentFlushed, true_and]
      simp only [flushed.queue, List.mem_filter] at queued
      simpa [found] using queued.2
    · exact .inr fun op hit queued => absurd queued (extracted op hit)
  | _ => simp [consumed, Work.batch?] at token

end Section

/-- The cells that are queued and staged are in the batch of the write that is under way, whose
    pointers hold different addresses. A cell that is not registered yet is not staged. -/
structure Batched (core : ContextCore) (pending : List Work) : Prop where
  apart : ∀ batch ∈ batchesOf pending, core.Apart batch.ops
  made : ∀ batch ∈ batchesOf pending, ∀ op ∈ batch.ops, op < core.made
  staged : ∀ op ∈ core.writeQueue, (core.cell op).segmentStaged = true →
    ∃ batch ∈ batchesOf pending, op ∈ batch.ops
  fresh : ∀ op post, .enqueueOperation op post ∈ pending → (core.cell op).segmentStaged = false

namespace Batched

variable {core : ContextCore} {pending : List Work}

theorem permuted {after : List Work} (perm : pending.Perm after) (batched : Batched core pending) :
    Batched core after := by
  have same : (batchesOf pending).Perm (batchesOf after) := perm.filterMap Work.batch?
  refine ⟨fun batch member => batched.apart batch (same.symm.subset member),
    fun batch member => batched.made batch (same.symm.subset member), ?_,
    fun op post member => batched.fresh op post (perm.symm.subset member)⟩
  intro op queued staged
  obtain ⟨batch, member, contains⟩ := batched.staged op queued staged
  exact ⟨batch, same.subset member, contains⟩

theorem initial : Batched {} [.armRead] :=
  ⟨by simp [Work.batch?], by simp [Work.batch?], by simp, by simp⟩

theorem preserved {sec : Section} {others : List Work} {o : Outcome} (runs : sec.Runs core o)
    (consumed : pending.Perm (sec.consumed ++ others)) (custody : Custody core pending)
    (batched : Batched core pending) : Batched o.core (o.produced ++ others) := by
  have before := batched.permuted consumed
  have source : ∀ batch ∈ batchesOf (o.produced ++ others), batch ∈ batchesOf (sec.consumed ++ others) ∨
      batch = ⟨core.drains + 1, (core.newDrain.drain core.writeQueue).2⟩ := by
    intro batch member
    rw [batchesOf_append] at member ⊢
    rcases List.mem_append.mp member with new | old
    · rcases runs.batch_source new with used | ⟨-, -, -, staged⟩
      · exact .inl (List.mem_append_left _ used)
      · exact .inr staged
    · exact .inl (List.mem_append_right _ old)
  have drained := ContextCore.drain_drained core.newDrain core.writeQueue custody.nodup_queue
  have queued : ∀ op ∈ (core.newDrain.drain core.writeQueue).2, op ∈ core.writeQueue := by
    rw [drained.staged]
    exact fun op member => (ContextCore.reached_sublist _ _).subset member
  have apartConsumed : ∀ batch ∈ batchesOf sec.consumed, core.Apart batch.ops := fun batch member =>
    before.apart batch (by simp [member])
  -- A cell on its way to the queue is out of reach of kicks and flushes.
  have unregistered : ∀ op post, .enqueueOperation op post ∈ pending →
      (o.core.cell op).segmentStaged = false := by
    intro op post pends
    have live := custody.owned_live pends (List.mem_singleton.mpr rfl)
    have outside := custody.owned_not_queued pends (List.mem_singleton.mpr rfl)
    rcases runs.staged_cases custody.nodup_queue apartConsumed (custody.made op live)
      with same | ⟨queued, -⟩ |
      ⟨queued, -⟩
    · rw [same]
      exact batched.fresh op post pends
    · exact absurd queued outside
    · exact absurd queued outside
  refine ⟨?_, ?_, ?_, ?_⟩
  · intro batch member
    rcases source batch member with old | rfl
    · refine (before.apart batch old).imp_of_mem fun {p q} memberP memberQ different => ?_
      rw [(runs.fixed (before.made batch old p memberP)).addr,
        (runs.fixed (before.made batch old q memberQ)).addr]
      exact different
    · have nodup : (core.newDrain.drain core.writeQueue).2.Nodup := by
        rw [drained.staged]
        exact custody.nodup_queue.sublist (ContextCore.reached_sublist _ _)
      refine nodup.imp_of_mem fun {p q} memberP memberQ different same => ?_
      have liveP := custody.queue_live (queued p memberP)
      have liveQ := custody.queue_live (queued q memberQ)
      rw [(runs.fixed (custody.made p liveP)).addr, (runs.fixed (custody.made q liveQ)).addr] at same
      exact different (custody.distinct p liveP q liveQ same)
  · intro batch member op contains
    have bound : op < core.made := by
      rcases source batch member with old | rfl
      · exact before.made batch old op contains
      · exact custody.made op (custody.queue_live (queued op contains))
    exact Nat.lt_of_lt_of_le bound (runs.heap.1 ▸ Nat.le_add_right _ _)
  · intro op kept staged
    have origin : op ∈ core.writeQueue ∨ ∃ post, .enqueueOperation op post ∈ pending := by
      rcases runs.queue with lost | ⟨new, post, rfl, -, grown⟩
      · exact .inl (lost.subset kept)
      · rcases List.mem_append.mp (grown.subset kept) with old | new
        · exact .inl old
        · rw [List.mem_singleton.mp new]
          exact .inr ⟨post, consumed.symm.subset List.mem_cons_self⟩
    rcases origin with here | ⟨post, pends⟩
    · have bound := custody.made op (custody.queue_live here)
      rcases runs.staged_cases custody.nodup_queue apartConsumed bound with same | ⟨-, off⟩ |
        ⟨-, batch, member, contains⟩
      · rw [same] at staged
        obtain ⟨batch, member, contains⟩ := before.staged op here staged
        rw [batchesOf_append] at member
        rcases List.mem_append.mp member with used | other
        · rcases runs.settles used custody.nodup_queue (apartConsumed batch used) with again | settled
          · exact ⟨batch, by simp [again], contains⟩
          · have hit := List.mem_filterMap.mpr ⟨op, contains, custody.queueFind_eq here⟩
            simp [(settled op hit kept).1, staged] at same
        · exact ⟨batch, by simp [other], contains⟩
      · simp [off] at staged
      · exact ⟨batch, by simp [member], contains⟩
    · simp [unregistered op post pends] at staged
  · intro op post member
    rcases List.mem_append.mp member with new | old
    · cases runs.spawns new rfl with
      | submit =>
        cases runs
        simp [ContextCore.attach, Operation.attach]
    · exact unregistered op post (consumed.symm.subset (List.mem_append_right _ old))

theorem of_run {guard : ContextCore → List Work → Section → Prop} {s : System}
    (run : GuardedRun guard s) :
    Batched s.core s.pending :=
  run.invariant Batched (fun _ _ _ perm batched => batched.permuted perm) initial
    fun _ _ _ _ earlier consumed batched _ runs => batched.preserved runs consumed (.of_run earlier)

end Batched

end Bkmail
