import Bkmail.Context.Routing

namespace Bkmail

namespace Section

/-- Nothing is logged of a cell that is not live. -/
theorem Runs.history_dead {core : ContextCore} {pending others : List Work} {sec : Section}
    {o : Outcome}
    (runs : sec.Runs core o) (consumed : pending.Perm (sec.consumed ++ others))
    (grounded : Grounded core pending)
    {op : OpId} (dead : op ∉ core.live) : history op o.core.log = history op core.log := by
  obtain ⟨acted, acts, quiet⟩ := runs.acts
  obtain ⟨events, logged, inert⟩ := quiet.log
  have custody := grounded.custody
  have unqueued : op ∉ core.writeQueue := fun queued => dead (custody.queue_live queued)
  have nodup := custody.nodup_queue
  rw [logged, history_append, history_inert op inert, List.append_nil]
  cases acts with
  | kick =>
    have kicked := core.kicked nodup
    have missed : op ∉ core.reached core.writeQueue := fun reached =>
      unqueued ((ContextCore.reached_sublist core core.writeQueue).subset reached)
    have log := history_map op (fun q => .staged (core.drains + 1) q (core.cell q).nextSegment)
      (.staged (core.drains + 1) (core.cell op).nextSegment)
      ((ContextCore.reached_sublist core core.writeQueue).nodup nodup) (if_pos rfl)
        fun q different => if_neg different
    rw [kicked.log, history_append, log, if_neg missed, List.append_nil]
  | flush batch =>
    have apart : core.unlatchWrite.Apart batch.ops :=
      grounded.batched.apart batch
        (Grounded.consumed_batch consumed (by simp [Section.consumed, Work.batch?]))
    have flushed := ContextCore.flushLoop_flushed batch.number batch.ops core.unlatchWrite nodup apart
    have log := history_map op (.segmentFlushed batch.number ·) (.flushed batch.number)
      (ContextCore.nodup_hits apart) (if_pos rfl) fun q different => if_neg different
    have missed : op ∉ core.unlatchWrite.hits batch.ops :=
      fun hit => unqueued (ContextCore.mem_hits hit).1
    rw [flushed.log, history_append, log, if_neg missed, List.append_nil, ContextCore.unlatchWrite_log]
  | continuation text rest r p q parsed target cell =>
    have different : q ≠ op := fun same => dead (same ▸ Custody.deref_live cell)
    simp [history, Event.about, different]
  | enqueue | flushCall | terminate | onTagged => simp [history, Event.about]
  | nothing | allocateTag | attach | requestDone | detach | dispose => rfl

theorem Runs.newcomer {s : ContextCore} {sec : Section} {o : Outcome} (runs : sec.Runs s o) {op : OpId}
    (made : op < o.core.made) : op < s.made ∨
      ∃ tag request addr callbackPath, sec = .call (.submit tag request addr callbackPath) ∧
      tag ∈ s.tags ∧ op = s.made ∧ o.core.cell op = .attach addr tag request callbackPath ∧
      o.core.log = s.log := by
  by_cases old : op < s.made
  · exact .inl old
  · rw [runs.heap.1] at made
    cases runs with
    | submit tag request addr callbackPath allocated =>
      have new : op = s.made := Nat.le_antisymm (Nat.lt_succ_iff.mp made) (Nat.le_of_not_lt old)
      refine .inr ⟨tag, request, addr, callbackPath, rfl, allocated, new, ?_, rfl⟩
      simp [new, ContextCore.attach]
    | _ => exact absurd made (by simpa [attaches] using old)

end Section

/-- What the log knows of every cell: nothing before it is made and registered, and a staging for
    every staging flag and for every cell of a write that is under way. -/
structure Lived (core : ContextCore) (pending : List Work) : Prop where
  unborn : ∀ op, core.made ≤ op → history op core.log = []
  fresh : ∀ op post, .enqueueOperation op post ∈ pending → history op core.log = [] ∧
    (core.cell op).command = (core.cell op).request.render (core.cell op).tag ∧
      (core.cell op).hasWritten = false ∧ (core.cell op).segmentStaged = false
  traced : ∀ op < core.made, (core.cell op).segmentStaged = true →
    ∃ number segment, .staged number segment ∈ history op core.log
  carried : ∀ batch ∈ batchesOf pending, ∀ op ∈ batch.ops, ∃ segment,
    .staged batch.number segment ∈ history op core.log

namespace Lived

variable {core : ContextCore} {pending others : List Work} {sec : Section} {o : Outcome}

theorem permuted {after : List Work} (perm : pending.Perm after) (lived : Lived core pending) :
    Lived core after :=
  { lived with
    fresh := fun op post pends => lived.fresh op post (perm.symm.subset pends)
    carried := fun batch member => lived.carried batch ((batchesOf_perm perm.symm).subset member) }

theorem initial : Lived {} [.armRead] :=
  ⟨fun _ _ => rfl, by simp, by simp, by simp [Work.batch?]⟩

theorem grows (runs : sec.Runs core o) (consumed : pending.Perm (sec.consumed ++ others))
    (grounded : Grounded core pending) (op : OpId) :
    ∃ events, history op o.core.log = history op core.log ++ events := by
  by_cases made : op < core.made
  · cases grounded.cell_step consumed runs made with
    | same _ log | done _ _ _ _ _ _ _ _ _ _ _ _ _ log | detach _ _ _ _ _ _ _ _ _ _ _ log | tagged _ _ _ log =>
      exact ⟨[], by simp [log]⟩
    | stage _ _ _ _ _ log | flush _ _ _ _ _ log | «continue» _ _ _ _ _ _ _ _ _ log => exact ⟨_, log⟩
  · have dead : op ∉ core.live := fun live => made (grounded.custody.made op live)
    exact ⟨[], by simp [runs.history_dead consumed grounded dead]⟩

/-- A cell that is still to be registered is out of reach of everything. -/
theorem unregistered_same (routed : Routed core pending) (runs : sec.Runs core o)
    (consumed : pending.Perm (sec.consumed ++ others)) (grounded : Grounded core pending)
    {op : OpId} {post : Bool}
    (pends : .enqueueOperation op post ∈ pending) :
    (core.cell op).SameWire (o.core.cell op) ∧ history op o.core.log = history op core.log := by
  have custody := grounded.custody
  have live := custody.owned_live pends (List.mem_singleton.mpr rfl)
  have unreached : ¬ Stays core pending op := Routed.unregistered custody pends
  have registered : ∀ tag p, core.phase = .opened → ContextCore.lookup core.registry tag = some p →
      core.deref p ≠ some op := by
    intro tag p opened found cell
    have held := routed.held opened
    rw [Routed.deref_eq custody held found, Option.some.injEq] at cell
    exact unreached (cell ▸ held _ (ContextCore.mem_of_lookup found))
  cases grounded.cell_step consumed runs (custody.made op live) with
  | same wire log => exact ⟨wire, log⟩
  | stage _ _ _ reached =>
      exact absurd (.inl ((ContextCore.reached_sublist _ _).subset reached)) unreached
  | flush _ _ _ hit => exact absurd (.inl (ContextCore.mem_hits hit).1) unreached
  | «continue» _ _ _ p _ _ target found =>
    have stays := (routed.route p target).2.2
    rw [custody.deref_eq (stays.live custody), Option.some.injEq] at found
    exact absurd (found ▸ stays) unreached
  | done _ tag _ p _ _ _ opened found _ cell => exact absurd cell (registered tag p opened found)
  | detach _ tag _ p _ _ opened found cell => exact absurd cell (registered tag p opened found)
  | tagged r ends =>
    have running : .onTagged op r ∈ pending :=
      Grounded.consumed_mem consumed (by simp [ends, Section.consumed])
    refine absurd (List.mem_singleton.mpr rfl)
      (grounded.ledger.sole_debtor pends running ?_ (List.mem_singleton.mpr rfl))
    simp

theorem preserved (runs : sec.Runs core o) (consumed : pending.Perm (sec.consumed ++ others))
    (grounded : Grounded core pending) (routed : Routed core pending) (lived : Lived core pending) :
    Lived o.core (o.produced ++ others) := by
  have custody := grounded.custody
  have kept : ∀ op event, event ∈ history op core.log → event ∈ history op o.core.log := by
    intro op event member
    obtain ⟨events, log⟩ := grows runs consumed grounded op
    rw [log]
    exact List.mem_append_left _ member
  refine ⟨?_, ?_, ?_, ?_⟩
  · intro op unmade
    have before : core.made ≤ op := Nat.le_trans (runs.heap.1 ▸ Nat.le_add_right _ _) unmade
    have dead : op ∉ core.live :=
      fun live => Nat.lt_irrefl _ (Nat.lt_of_lt_of_le (custody.made op live) before)
    rw [runs.history_dead consumed grounded dead]
    exact lived.unborn op before
  · intro op post pends
    rcases List.mem_append.mp pends with produced | other
    · cases runs.spawns produced rfl with
      | submit =>
        cases runs
        refine ⟨lived.unborn core.made (Nat.le_refl _), ?_⟩
        simp [ContextCore.attach, Operation.attach]
    · have pends : .enqueueOperation op post ∈ pending :=
        consumed.symm.subset (List.mem_append_right _ other)
      obtain ⟨empty, command, written, staged⟩ := lived.fresh op post pends
      obtain ⟨wire, log⟩ := unregistered_same routed runs consumed grounded pends
      exact ⟨log.trans
        empty, by rw [wire.command, wire.request, wire.tag, command], wire.hasWritten.trans written,
        wire.segmentStaged.trans staged⟩
  · intro op made staged
    rcases runs.newcomer made with old | ⟨tag, request, addr, callbackPath, rfl, -, rfl, cell, -⟩
    · have before : (core.cell op).segmentStaged = true →
        ∃ number segment, .staged number segment ∈ history op o.core.log := by
        intro staged
        obtain ⟨number, segment, member⟩ := lived.traced op old staged
        exact ⟨number, segment, kept op _ member⟩
      cases grounded.cell_step consumed runs old with
      | same wire | «continue» _ _ _ _ _ _ _ _ wire | done _ _ _ _ _ _ _ _ _ _ _ _ wire
      | detach _ _ _ _ _ _ _ _ _ _ wire | tagged _ _ wire =>
          exact before (wire.segmentStaged.symm.trans staged)
      | stage _ _ _ _ _ log => exact ⟨_, _, log ▸ List.mem_append_right _ (List.mem_singleton.mpr rfl)⟩
      | flush _ _ _ _ wire => simp [wire.segmentStaged, Operation.onSegmentFlushed] at staged
    · simp [cell, Operation.attach] at staged
  · intro batch member op contains
    rw [batchesOf_append] at member
    rcases List.mem_append.mp member with produced | other
    · rcases runs.batch_source produced with used | ⟨-, -, drains, rfl⟩
      · obtain ⟨segment, logged⟩ :=
          lived.carried batch (Grounded.consumed_batch consumed used) op contains
        exact ⟨segment, kept op _ logged⟩
      · rcases runs.stagings custody.nodup_queue with ⟨-, -, same⟩ | ⟨-, -, -, kicked⟩
        · exact absurd (same.symm.trans drains) (Nat.ne_of_lt (Nat.lt_succ_self _))
        · have drained := ContextCore.drain_drained core.newDrain core.writeQueue custody.nodup_queue
          have reached : op ∈ core.reached core.writeQueue := by
            rw [← core.newDrain_reached, ← drained.staged]
            exact contains
          refine ⟨(core.cell op).nextSegment,
            List.mem_filterMap.mpr ⟨.staged (core.drains + 1) op _, ?_, if_pos rfl⟩⟩
          rw [kicked.log]
          exact List.mem_append_right _ (List.mem_map.mpr ⟨op, reached, rfl⟩)
    · obtain ⟨segment, logged⟩ :=
        lived.carried batch ((batchesOf_perm consumed).symm.subset (by simp [other])) op contains
      exact ⟨segment, kept op _ logged⟩

theorem of_run {guard : ContextCore → List Work → Section → Prop} {s : System}
    (run : GuardedRun guard s) :
    Lived s.core s.pending :=
  run.invariant Lived (fun _ _ _ perm lived => lived.permuted perm) initial
    fun _ _ _ _ earlier consumed lived _ runs =>
      lived.preserved runs consumed (.of_run earlier) (.of_run earlier)

end Lived

end Bkmail
