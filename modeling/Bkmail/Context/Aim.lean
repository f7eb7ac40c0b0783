import Bkmail.Context.Lives

namespace Bkmail

/-- Where the staged pointers of a write lead: to its own cells, which stay staged while they are
    queued, or to a cell made at the address of one that is gone, which nothing has happened to
    yet. -/
structure Aimed (core : ContextCore) (pending : List Work) : Prop where
  staged : ∀ batch ∈ batchesOf pending, ∀ op ∈ batch.ops, op ∈ core.writeQueue →
    (core.cell op).segmentStaged = true
  strangers : ∀ batch ∈ batchesOf pending, ∀ p ∈ batch.ops, ∀ q ∈ core.live,
    (core.cell p).addr = (core.cell q).addr → p ≠ q → history q core.log = []
  earned : ∀ q, core.continuationTarget = some q → history q core.log ≠ []

theorem Section.Runs.live_old {s : ContextCore} {sec : Section} {o : Outcome}
    (runs : sec.Runs s o) {op : OpId}
    (live : op ∈ o.core.live) (old : op < s.made) : op ∈ s.live := by
  rw [runs.heap.2] at live
  rcases List.mem_append.mp (List.mem_filter.mp live).1 with before | new
  · exact before
  · unfold Section.attaches at new
    split at new
    · exact absurd old (List.mem_singleton.mp new ▸ Nat.lt_irrefl _)
    · simp at new

namespace Aimed

variable {core : ContextCore} {pending others : List Work} {sec : Section} {o : Outcome}

theorem permuted {after : List Work} (perm : pending.Perm after) (aimed : Aimed core pending) :
    Aimed core after where
  staged batch member := aimed.staged batch ((batchesOf_perm perm.symm).subset member)
  strangers batch member := aimed.strangers batch ((batchesOf_perm perm.symm).subset member)
  earned := aimed.earned

theorem initial : Aimed {} [.armRead] := ⟨by simp [Work.batch?], by simp [Work.batch?], by simp⟩

/-- A batch is one that no flush has ended, or the one that the kick has just staged from the
    queue. -/
theorem source (runs : sec.Runs core o) (consumed : pending.Perm (sec.consumed ++ others))
    (grounded : Grounded core pending) {batch : Batch}
    (member : batch ∈ batchesOf (o.produced ++ others)) :
    batch ∈ batchesOf pending ∧ (∀ other, sec ≠ .work (.writeFlushed other) .go) ∨
      batchesOf pending = [] ∧ batch.ops = core.reached core.writeQueue ∧ core.Kicked o.core := by
  have latched := grounded.latched
  have nodup := grounded.custody.nodup_queue
  have after := latched.preserved runs consumed
  have unflushed : ∀ other, sec ≠ .work (.writeFlushed other) .go := by
    rintro other rfl
    have idle : o.core.writeInFlight = false := by
      cases runs
      unfold ContextCore.writeFlushed
      split
      · exact (ContextCore.flushLoop_agrees other.number other.ops core.unlatchWrite).writeInFlight
      · exact (ContextCore.extractAll_agrees other.ops core.unlatchWrite).writeInFlight
    rw [after.no_batch idle] at member
    simp at member
  rw [batchesOf_append] at member
  rcases List.mem_append.mp member with produced | other
  · rcases runs.batch_source produced with used | ⟨rfl, idle, drains, rfl⟩
    · exact .inl ⟨Grounded.consumed_batch consumed used, unflushed⟩
    · rcases runs.stagings nodup with ⟨-, -, same⟩ | ⟨-, -, -, kicked⟩
      · exact absurd (same.symm.trans drains) (Nat.ne_of_lt (Nat.lt_succ_self _))
      · refine .inr ⟨latched.no_batch idle, ?_, kicked⟩
        rw [← core.newDrain_reached]
        exact (ContextCore.drain_drained core.newDrain core.writeQueue nodup).staged
  · exact .inl ⟨(batchesOf_perm consumed).symm.subset (by simp [other]), unflushed⟩

theorem flying (latched : Latched core pending) {batch : Batch} (token : batch ∈ batchesOf pending) :
    core.writeInFlight = true := by
  by_contra idle
  rw [latched.no_batch (Bool.not_eq_true _ ▸ idle)] at token
  simp at token

theorem preserved (runs : sec.Runs core o) (consumed : pending.Perm (sec.consumed ++ others))
    (grounded : Grounded core pending) (routed : Routed core pending) (lived : Lived core pending)
    (aimed : Aimed core pending) : Aimed o.core (o.produced ++ others) := by
  have custody := grounded.custody
  have grows := Lived.grows runs consumed grounded
  refine ⟨?_, ?_, ?_⟩
  · intro batch member op contains queued
    rcases source runs consumed grounded member with ⟨token, unflushed⟩ | ⟨-, ops, kicked⟩
    · have made := grounded.batched.made batch token op contains
      have before : op ∈ core.writeQueue := by
        rcases runs.queue with lost | ⟨q, post, rfl, -, grown⟩
        · exact lost.subset queued
        · rcases List.mem_append.mp (grown.subset queued) with old | new
          · exact old
          · cases List.mem_singleton.mp new
            obtain ⟨segment, logged⟩ := lived.carried batch token op contains
            rw [(lived.fresh op post (Grounded.consumed_mem consumed List.mem_cons_self)).1] at logged
            simp at logged
      have staged := aimed.staged batch token op contains before
      cases grounded.cell_step consumed runs made with
      | same wire | «continue» _ _ _ _ _ _ _ _ wire | done _ _ _ _ _ _ _ _ _ _ _ _ wire
      | detach _ _ _ _ _ _ _ _ _ _ wire | tagged _ _ wire => exact wire.segmentStaged.trans staged
      | stage _ _ _ _ wire => exact wire.segmentStaged
      | flush other ran => exact absurd ran (unflushed other)
    · rw [kicked.cell, if_pos (ops ▸ contains)]
      rfl
  · intro batch member p contains q live same different
    rcases runs.newcomer ((custody.preserved runs consumed).made q live) with old | ⟨_, _, _, _, -, -, rfl, -, log⟩
    · have before := runs.live_old live old
      rcases source runs consumed grounded member with ⟨token, unflushed⟩ | ⟨none, ops, kicked⟩
      · rw [(runs.fixed (grounded.batched.made batch token p contains)).addr, (runs.fixed old).addr] at same
        have empty := aimed.strangers batch token p contains q before same different
        cases grounded.cell_step consumed runs old with
        | same _ log | done _ _ _ _ _ _ _ _ _ _ _ _ _ log | detach _ _ _ _ _ _ _ _ _ _ _ log | tagged _ _ _ log =>
          exact log.trans empty
        | stage _ _ idle => simp [flying grounded.latched token] at idle
        | flush other ran => exact absurd ran (unflushed other)
        | «continue» _ _ _ r _ _ target found =>
          rw [custody.deref_eq ((routed.route r target).2.2.live custody), Option.some.injEq] at found
          exact absurd empty (found ▸ aimed.earned r target)
      · have queued := (ContextCore.reached_sublist core core.writeQueue).subset (ops ▸ contains)
        have live := custody.queue_live queued
        rw [(runs.fixed (custody.made p live)).addr, (runs.fixed old).addr] at same
        exact absurd (custody.distinct p live q before same) different
    · rw [log]
      exact lived.unborn _ (Nat.le_refl _)
  · intro q target
    have kept : core.continuationTarget = some q → history q o.core.log ≠ [] := fun before => by
      obtain ⟨events, log⟩ := grows q
      simp [log, aimed.earned q before]
    cases runs.routes consumed grounded with
    | idle _ _ _ _ same =>
      rcases same with same | ⟨none, -⟩
      · exact kept (same ▸ target)
      · simp [none] at target
    | kick _ opened kicked =>
      rcases kicked.target q target with before | ⟨reached, awaits⟩
      · exact kept before
      · have logged : .staged (core.drains + 1) (core.cell q).nextSegment ∈ history q o.core.log := by
          refine List.mem_filterMap.mpr ⟨.staged (core.drains + 1) q _, ?_, if_pos rfl⟩
          rw [kicked.log]
          exact List.mem_append_right _ (List.mem_map.mpr ⟨q, reached, rfl⟩)
        exact List.ne_nil_of_mem logged
    | flush batch _ retired opened flushed =>
      rcases flushed.target q target with before | ⟨hit, awaits⟩
      · exact kept before
      · have logged : .flushed batch.number ∈ history q o.core.log := by
          refine List.mem_filterMap.mpr ⟨.segmentFlushed batch.number q, ?_, if_pos rfl⟩
          rw [flushed.log]
          exact List.mem_append_right _ (List.mem_map.mpr ⟨q, hit, rfl⟩)
        exact List.ne_nil_of_mem logged
    | reply _ _ _ _ _ _ _ other => exact kept ((other q).mp target).1
    | purge _ _ _ _ none | close _ _ _ _ none => simp [none] at target
    | register _ _ _ _ _ _ same | revoke _ _ _ _ _ _ same | withdraw _ _ _ _ _ _ _ _ _ _ _ same
    | detach _ _ _ _ _ _ _ _ _ _ _ same | retire _ _ _ _ _ _ _ same | lift _ _ _ _ _ same
    | drop _ _ _ _ _ _ same => exact kept (same ▸ target)

theorem of_run {guard : ContextCore → List Work → Section → Prop} {s : System}
    (run : GuardedRun guard s) :
    Aimed s.core s.pending :=
  run.invariant Aimed (fun _ _ _ perm aimed => aimed.permuted perm) initial
    fun _ _ _ _ earlier consumed aimed _ runs =>
      aimed.preserved runs consumed (.of_run earlier) (.of_run earlier) (.of_run earlier)

theorem hit (grounded : Grounded core pending) (aimed : Aimed core pending) {batch : Batch}
    (token : batch ∈ batchesOf pending) {op : OpId} (hit : op ∈ core.hits batch.ops) :
    op ∈ batch.ops ∧ (core.cell op).segmentStaged = true ∨ history op core.log = [] := by
  obtain ⟨queued, p, contains, same⟩ := ContextCore.mem_hits hit
  by_cases itself : p = op
  · subst itself
    exact .inl ⟨contains, aimed.staged batch token p contains queued⟩
  · exact .inr
      (aimed.strangers batch token p contains op (grounded.custody.queue_live queued) same itself)

end Aimed

end Bkmail
