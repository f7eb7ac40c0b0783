import Bkmail.Context.Frames

namespace Bkmail.ContextCore

/-! The drain loop, without its state: the cells it stages are known before it runs. -/

def reached (s : ContextCore) : List OpId → List OpId
  | [] => []
  | op :: rest =>
    if (s.cell op).isWritten then s.reached rest
    else if (s.cell op).nextSegment = [] then
      if (s.cell op).awaitsContinuation then [] else s.reached rest
    else if (s.cell op).awaitsContinuation || (s.cell op).blocksPipeline then [op]
    else op :: s.reached rest

theorem reached_congr {s t : ContextCore} {ops : List OpId} (same : ∀ op ∈ ops, t.cell op = s.cell op) :
    t.reached ops = s.reached ops := by
  induction ops with
  | nil => rfl
  | cons op ops ih =>
    simp only [reached, same op List.mem_cons_self, ih fun q member =>
      same q (List.mem_cons_of_mem _ member)]

theorem reached_sublist (s : ContextCore) (ops : List OpId) : (s.reached ops).Sublist ops := by
  induction ops with
  | nil => exact .refl _
  | cons op ops ih =>
    simp only [reached]
    split
    · exact ih.cons op
    · split
      · split
        · exact List.nil_sublist _
        · exact ih.cons op
      · split
        · exact (List.nil_sublist ops).cons_cons op
        · exact ih.cons_cons op

theorem reached_segment {s : ContextCore} {ops : List OpId} {op : OpId} (member : op ∈ s.reached ops) :
    (s.cell op).nextSegment ≠ [] := by
  induction ops with
  | nil => simp [reached] at member
  | cons first ops ih =>
    simp only [reached] at member
    split at member
    · exact ih member
    · split at member
      · split at member
        · simp at member
        · exact ih member
      · rename_i segment
        split at member
        · rw [List.mem_singleton.mp member]
          exact segment
        · rcases List.mem_cons.mp member with rfl | member
          · exact segment
          · exact ih member

theorem reached_unstaged {s : ContextCore} {ops : List OpId} {op : OpId} (member : op ∈ s.reached ops) :
    (s.cell op).segmentStaged = false := by
  have segment := reached_segment member
  by_contra staged
  simp [Operation.nextSegment, staged] at segment

@[simp] theorem stage_drains (s : ContextCore) (op : OpId) (segment : Bytes) :
    (s.stage op segment).drains = s.drains := (stage_agrees s op segment).drains

theorem stage_cell (s : ContextCore) (op : OpId) (segment : Bytes) (i : OpId) :
    (s.stage op segment).cell i = if i = op then (s.cell op).onSegmentStaged else s.cell i := by
  have cell : (s.stage op segment).cell = (s.modify op Operation.onSegmentStaged).cell := by
    unfold stage
    simp only
    split <;> rfl
  rw [cell, modify_cell, Function.update_apply]

theorem stage_log (s : ContextCore) (op : OpId) (segment : Bytes) :
    (s.stage op segment).log = s.log ++ [.staged s.drains op segment] := by
  unfold stage
  simp only
  split <;> rfl

theorem stage_staging (s : ContextCore) (op : OpId) (segment : Bytes) :
    (s.stage op segment).writeStaging = s.writeStaging ++ segment := by
  unfold stage
  simp only
  split <;> rfl

theorem stage_target (s : ContextCore) (op : OpId) (segment : Bytes) :
    (s.stage op segment).continuationTarget =
      if (s.cell op).awaitsContinuation then some op else s.continuationTarget := by
  cases awaits : (s.cell op).command.awaitsContinuation <;>
    simp [stage, Operation.awaitsContinuation, Operation.onSegmentStaged, awaits]

theorem drain_logs (ops : List OpId) (s : ContextCore) :
    ∃ events, (s.drain ops).1.log = s.log ++ events ∧
      ∀ event ∈ events, ∃ op segment, event = .staged s.drains op segment := by
  induction ops generalizing s with
  | nil => exact ⟨[], by simp [drain], by simp⟩
  | cons op ops ih =>
    simp only [drain]
    split
    · exact ih s
    · split
      · split
        · exact ⟨[], by simp, by simp⟩
        · exact ih s
      · split
        · exact ⟨_, stage_log s op _, by simp⟩
        · obtain ⟨events, logged, staged⟩ := ih (s.stage op (s.cell op).nextSegment)
          rw [stage_log, List.append_assoc] at logged
          refine ⟨_, logged, fun event member => ?_⟩
          rcases List.mem_append.mp member with here | later
          · exact ⟨op, _, List.mem_singleton.mp here⟩
          · simpa using staged event later

/-- What a drain leaves: the reached cells are staged, each with its next segment, in order. -/
structure Drained (s : ContextCore) (ops : List OpId) (t : ContextCore)
    (staged : List OpId) : Prop where
  staged : staged = s.reached ops
  cell : ∀ op, t.cell op = if op ∈ s.reached ops then (s.cell op).onSegmentStaged else s.cell op
  log : t.log = s.log ++ (s.reached ops).map fun op => .staged s.drains op (s.cell op).nextSegment
  staging : t.writeStaging = s.writeStaging ++ (s.reached ops).flatMap fun op => (s.cell op).nextSegment
  target : ∀ p, t.continuationTarget = some p →
    s.continuationTarget = some p ∨ p ∈ s.reached ops ∧ (s.cell p).awaitsContinuation = true

theorem drained_same {s : ContextCore} {ops : List OpId} (none : s.reached ops = []) :
    s.Drained ops s [] := by
  refine ⟨none.symm, ?_, ?_, ?_, fun p target => .inl target⟩ <;> simp [none]

theorem drain_drained (s : ContextCore) (ops : List OpId) (nodup : ops.Nodup) :
    s.Drained ops (s.drain ops).1 (s.drain ops).2 := by
  induction ops generalizing s with
  | nil => exact drained_same rfl
  | cons op ops ih =>
    obtain ⟨fresh, nodup⟩ := List.nodup_cons.mp nodup
    -- The cells behind `op` are as they were when the drain came to them.
    have skipped : s.reached (op :: ops) = s.reached ops →
        s.Drained (op :: ops) (s.drain ops).1 (s.drain ops).2 := by
      intro same
      have drained := ih s nodup
      refine ⟨?_, ?_, ?_, ?_, ?_⟩ <;> rw [same]
      exacts [drained.staged, drained.cell, drained.log, drained.staging, drained.target]
    simp only [drain]
    split
    · rename_i written
      exact skipped (by simp [reached, written])
    · rename_i unwritten
      split
      · rename_i empty
        split
        · rename_i awaits
          exact drained_same (by simp [reached, unwritten, empty, awaits])
        · rename_i awaits
          exact skipped (by simp [reached, unwritten, empty, awaits])
      · rename_i segment
        split
        · rename_i wall
          have reached : s.reached (op :: ops) = [op] := by simp [reached, unwritten, segment, wall]
          refine ⟨reached.symm, ?_, ?_, ?_, ?_⟩ <;> rw [reached]
          · intro i
            rw [stage_cell]
            by_cases same : i = op <;> simp [same]
          · exact stage_log s op _
          · simp [stage_staging]
          · intro p target
            rw [stage_target] at target
            split at target
            · rename_i awaits
              cases target
              exact .inr ⟨List.mem_singleton.mpr rfl, awaits⟩
            · exact .inl target
        · rename_i wall
          have behind : ∀ i ∈ ops, (s.stage op (s.cell op).nextSegment).cell i = s.cell i := by
            intro i member
            rw [stage_cell, if_neg]
            rintro rfl
            exact fresh member
          have reached : s.reached (op :: ops) =
            op :: s.reached ops := by simp [reached, unwritten, segment, wall]
          have drained := ih (s.stage op (s.cell op).nextSegment) nodup
          have later : (s.stage op (s.cell op).nextSegment).reached ops = s.reached ops :=
            reached_congr behind
          have inside : ∀ i ∈ s.reached ops, (s.stage op (s.cell op).nextSegment).cell i = s.cell i :=
            fun i member => behind i ((reached_sublist s ops).subset member)
          refine ⟨?_, ?_, ?_, ?_, ?_⟩ <;> rw [reached]
          · rw [drained.staged, later]
          · intro i
            rw [drained.cell, later, stage_cell]
            by_cases same : i = op
            · subst same
              have outside : i ∉ s.reached ops :=
                fun member => fresh ((reached_sublist s ops).subset member)
              simp [outside]
            · simp [same]
          · rw [drained.log, later, stage_log, stage_drains]
            simp only [List.append_assoc, List.singleton_append, List.map_cons]
            congr 2
            exact List.map_congr_left fun i member => by rw [inside i member]
          · rw [drained.staging, later, stage_staging]
            simp only [List.append_assoc, List.flatMap_cons]
            congr 2
            exact List.flatMap_congr fun i member => by rw [inside i member]
          · intro p target
            rcases drained.target p target with target | ⟨member, awaits⟩
            · rw [stage_target] at target
              split at target
              · rename_i awaits
                simp [awaits] at wall
              · exact .inl target
            · rw [later] at member
              rw [inside p member] at awaits
              exact .inr ⟨List.mem_cons_of_mem _ member, awaits⟩

/-! The loops over a staged list: each pointer leads to at most one queued cell. -/

def hits (s : ContextCore) (ops : List OpId) : List OpId := ops.filterMap s.queueFind

def Apart (s : ContextCore) (ops : List OpId) : Prop :=
  ops.Pairwise fun p q => (s.cell p).addr ≠ (s.cell q).addr

theorem Agrees.apart {s t : ContextCore} (agrees : s.Agrees t) {ops : List OpId} (apart : s.Apart ops) :
    t.Apart ops :=
  apart.imp fun {p q} different => by
    rw [(agrees.cells p).addr, (agrees.cells q).addr]
    exact different

theorem queueFind_some {s : ContextCore} {p op : OpId} (found : s.queueFind p = some op) :
    op ∈ s.writeQueue ∧ (s.cell p).addr = (s.cell op).addr :=
  ⟨List.mem_of_find?_eq_some found, by simpa [sameAddress] using List.find?_some found⟩

theorem mem_hits {s : ContextCore} {ops : List OpId} {op : OpId} (hit : op ∈ s.hits ops) :
    op ∈ s.writeQueue ∧ ∃ p ∈ ops, (s.cell p).addr = (s.cell op).addr := by
  obtain ⟨p, member, found⟩ := List.mem_filterMap.mp hit
  exact ⟨(queueFind_some found).1, p, member, (queueFind_some found).2⟩

theorem find?_erase {items : List OpId} {item : OpId} {test : OpId → Bool} (fails : test item = false) :
    (items.erase item).find? test = items.find? test := by
  induction items with
  | nil => rfl
  | cons first items ih =>
    rw [List.erase_cons]
    split
    · rename_i same
      rw [List.find?_cons, eq_of_beq same, fails]
    · rw [List.find?_cons, List.find?_cons, ih]

theorem hits_erase {s t : ContextCore} {op : OpId} {ops : List OpId} (agrees : s.Agrees t)
    (queue : t.writeQueue = s.writeQueue.erase op ∨ t.writeQueue = s.writeQueue)
    (other : ∀ q ∈ ops, (s.cell q).addr ≠ (s.cell op).addr) : t.hits ops = s.hits ops := by
  refine List.filterMap_congr fun q member => ?_
  have same : t.sameAddress q = s.sameAddress q := funext (agrees.sameAddress q)
  rcases queue with queue | queue
  · rw [queueFind, queueFind, same, queue, find?_erase]
    simpa [sameAddress] using other q member
  · rw [queueFind, queueFind, same, queue]

theorem hits_cons_none {s : ContextCore} {p : OpId} {ops : List OpId} (absent : s.queueFind p = none) :
    s.hits (p :: ops) = s.hits ops := by
  simp [hits, absent]

theorem hits_cons_some {s : ContextCore} {p op : OpId} {ops : List OpId}
    (found : s.queueFind p = some op) :
    s.hits (p :: ops) = op :: s.hits ops := by
  simp [hits, found]

theorem apart_hit {s : ContextCore} {p op : OpId} {ops : List OpId} (apart : s.Apart (p :: ops))
    (found : s.queueFind p = some op) : ∀ q ∈ ops, (s.cell q).addr ≠ (s.cell op).addr := by
  intro q member same
  exact (List.pairwise_cons.mp apart).1 q member ((queueFind_some found).2.trans same.symm)

theorem not_mem_hits {s : ContextCore} {p op : OpId} {ops : List OpId} (apart : s.Apart (p :: ops))
    (found : s.queueFind p = some op) : op ∉ s.hits ops := by
  intro hit
  obtain ⟨-, q, member, same⟩ := mem_hits hit
  exact apart_hit apart found q member same

theorem nodup_hits {s : ContextCore} {ops : List OpId} (apart : s.Apart ops) : (s.hits ops).Nodup := by
  induction ops with
  | nil => exact .nil
  | cons p ops ih =>
    have rest := ih (List.pairwise_cons.mp apart).2
    cases found : s.queueFind p with
    | none => rwa [hits_cons_none found]
    | some op =>
      rw [hits_cons_some found]
      exact List.nodup_cons.mpr ⟨not_mem_hits apart found, rest⟩

theorem filter_erase {queue gone : List OpId} {op : OpId} (nodup : queue.Nodup) :
    (queue.erase op).filter (fun i => !gone.contains i) = queue.filter fun i =>
    !(op :: gone).contains i := by
  rw [nodup.erase_eq_filter, List.filter_filter]
  refine List.filter_congr fun i _ => ?_
  simp only [List.contains_cons, Bool.not_or]
  rw [Bool.and_comm]
  rfl

theorem extractAll_spec (ops : List OpId) (s : ContextCore) (nodup : s.writeQueue.Nodup)
    (apart : s.Apart ops) :
    (s.extractAll ops).2 = s.hits ops ∧
      (s.extractAll ops).1.writeQueue = s.writeQueue.filter fun i => !(s.hits ops).contains i := by
  induction ops generalizing s with
  | nil => simp [extractAll, hits]
  | cons p ops ih =>
    have apartRest := (List.pairwise_cons.mp apart).2
    simp only [extractAll]
    cases found : s.queueFind p with
    | none =>
      simp only [extractFromQueueLocked, found, hits_cons_none found]
      exact ih s nodup apartRest
    | some op =>
      simp only [extractFromQueueLocked, found, hits_cons_some found]
      have agrees : s.Agrees { s with writeQueue := s.writeQueue.erase op } :=
        ⟨rfl, rfl, rfl, rfl, rfl, rfl, rfl, rfl, rfl, rfl, rfl, rfl, rfl, fun _ => .refl _, rfl⟩
      obtain ⟨retired, queue⟩ := ih _ (nodup.erase op) (agrees.apart apartRest)
      have same := hits_erase agrees (.inl rfl) (apart_hit apart found)
      rw [retired, queue, same]
      exact ⟨rfl, filter_erase nodup⟩

/-- The cells that the flush loop retires: detached, and fully written with this flush. -/
def retires (c : Operation) : Bool := c.detached && c.onSegmentFlushed.isWritten

/-- What the flush loop leaves: each hit is flushed once, and the detached ones that are then
    fully written leave the queue. -/
structure Flushed (s : ContextCore) (number : Nat) (ops : List OpId) (t : ContextCore)
    (retired : List OpId) :
    Prop where
  retired : retired = (s.hits ops).filter fun op => retires (s.cell op)
  cell : ∀ op, t.cell op = if op ∈ s.hits ops then (s.cell op).onSegmentFlushed else s.cell op
  queue : t.writeQueue = s.writeQueue.filter fun op =>
    !((s.hits ops).filter fun i => retires (s.cell i)).contains op
  log : t.log = s.log ++ (s.hits ops).map (.segmentFlushed number ·)
  target : ∀ p, t.continuationTarget = some p → s.continuationTarget = some p ∨
    p ∈ s.hits ops ∧ (s.cell p).onSegmentFlushed.awaitsContinuation = true

theorem flushOne_cell (s : ContextCore) (number : Nat) (op i : OpId) :
    (s.flushOne number op).cell i = if i = op then (s.cell op).onSegmentFlushed else s.cell i := by
  have cell : (s.flushOne number op).cell = (s.modify op Operation.onSegmentFlushed).cell := by
    unfold flushOne
    simp only
    split <;> rfl
  rw [cell, modify_cell, Function.update_apply]

theorem flushOne_log (s : ContextCore) (number : Nat) (op : OpId) :
    (s.flushOne number op).log = s.log ++ [.segmentFlushed number op] := by
  unfold flushOne
  simp only
  split <;> rfl

theorem flushOne_target (s : ContextCore) (number : Nat) (op : OpId) :
    (s.flushOne number op).continuationTarget =
      if (s.cell op).onSegmentFlushed.awaitsContinuation then some op else s.continuationTarget := by
  cases awaits : (s.cell op).onSegmentFlushed.awaitsContinuation <;> simp [flushOne, awaits]

theorem flushLoop_logs (number : Nat) (ops : List OpId) (s : ContextCore) :
    ∃ events, (s.flushLoop number ops).1.log = s.log ++ events ∧
      ∀ event ∈ events, ∃ op, event = .segmentFlushed number op := by
  induction ops generalizing s with
  | nil => exact ⟨[], by simp [flushLoop], by simp⟩
  | cons p ops ih =>
    rw [flushLoop_cons]
    split
    · exact ih s
    · rename_i op found
      have turn : ∀ t : ContextCore, t.log = (s.flushOne number op).log →
          ∃ events, (t.flushLoop number ops).1.log = s.log ++ events ∧
            ∀ event ∈ events, ∃ op, event = .segmentFlushed number op := by
        intro t same
        obtain ⟨events, logged, flushed⟩ := ih t
        rw [same, flushOne_log, List.append_assoc] at logged
        refine ⟨_, logged, fun event member => ?_⟩
        rcases List.mem_append.mp member with here | later
        · exact ⟨op, List.mem_singleton.mp here⟩
        · exact flushed event later
      simp only
      split
      · exact turn _ (by rw [extract_eq])
      · exact turn _ rfl

theorem flushed_cons {s v t : ContextCore} {number : Nat} {p op : OpId} {ops retired : List OpId}
    (nodup : s.writeQueue.Nodup) (apart : s.Apart (p :: ops)) (found : s.queueFind p = some op)
    (agrees : s.Agrees v)
    (cell : ∀ i, v.cell i = if i = op then (s.cell op).onSegmentFlushed else s.cell i)
    (queue : v.writeQueue = if retires (s.cell op) then s.writeQueue.erase op else s.writeQueue)
    (log : v.log = s.log ++ [.segmentFlushed number op])
    (target : v.continuationTarget =
      if (s.cell op).onSegmentFlushed.awaitsContinuation then some op else s.continuationTarget)
    (rest : v.Flushed number ops t retired) :
    s.Flushed number (p :: ops) t ((if retires (s.cell op) then [op] else []) ++ retired) := by
  have fresh := not_mem_hits apart found
  have same : v.hits ops = s.hits ops := by
    refine hits_erase agrees ?_ (apart_hit apart found)
    rw [queue]
    split
    · exact .inl rfl
    · exact .inr rfl
  have inside : ∀ i ∈ s.hits ops, v.cell i = s.cell i := by
    intro i member
    rw [cell, if_neg]
    rintro rfl
    exact fresh member
  have kept : (s.hits ops).filter (fun i => retires (v.cell i)) = (s.hits ops).filter fun i =>
    retires (s.cell i) :=
    List.filter_congr fun i member => by rw [inside i member]
  have all : (s.hits (p :: ops)).filter (fun i => retires (s.cell i)) =
      (if retires (s.cell op) then [op] else []) ++ (s.hits ops).filter fun i =>
      retires (s.cell i) := by
    rw [hits_cons_some found, List.filter_cons]
    split <;> rfl
  refine ⟨?_, ?_, ?_, ?_, ?_⟩
  · rw [all, rest.retired, same, kept]
  · intro i
    rw [rest.cell, same, cell, hits_cons_some found]
    by_cases here : i = op
    · subst here
      simp [fresh]
    · simp [here]
  · rw [all, rest.queue, same, kept, queue]
    split
    · exact filter_erase nodup
    · rfl
  · rw [rest.log, same, log, hits_cons_some found, List.map_cons, List.append_assoc,
      List.singleton_append]
  · intro q reached
    rw [hits_cons_some found]
    rcases rest.target q reached with earlier | ⟨member, awaits⟩
    · rw [target] at earlier
      split at earlier
      · rename_i awaits
        cases earlier
        exact .inr ⟨List.mem_cons_self, awaits⟩
      · exact .inl earlier
    · rw [same] at member
      rw [inside q member] at awaits
      exact .inr ⟨List.mem_cons_of_mem _ member, awaits⟩

theorem flushLoop_flushed (number : Nat) (ops : List OpId) (s : ContextCore)
    (nodup : s.writeQueue.Nodup)
    (apart : s.Apart ops) :
    s.Flushed number ops (s.flushLoop number ops).1 (s.flushLoop number ops).2 := by
  induction ops generalizing s with
  | nil =>
    refine ⟨rfl, fun i => ?_, ?_, ?_, fun q target => .inl target⟩
    · simp [hits, flushLoop]
    · simp [hits, flushLoop]
    · simp [hits, flushLoop]
  | cons p ops ih =>
    have apartRest := (List.pairwise_cons.mp apart).2
    rw [flushLoop_cons]
    cases found : s.queueFind p with
    | none =>
      have rest := ih s nodup apartRest
      have same : s.hits (p :: ops) = s.hits ops := hits_cons_none found
      refine ⟨?_, ?_, ?_, ?_, ?_⟩ <;> rw [same]
      exacts [rest.retired, rest.cell, rest.queue, rest.log, rest.target]
    | some op =>
      have agrees := flushOne_agrees s number op
      have cell := flushOne_cell s number op
      have queue := flushOne_queue s number op
      have turned :
        (((s.flushOne number op).cell op).detached && ((s.flushOne number op).cell op).isWritten) =
          retires (s.cell op) := by
        rw [cell, if_pos rfl]
        rfl
      have again : (s.flushOne number op).queueFind op = some op := by
        rw [← found, queueFind, queueFind, queue]
        refine congrArg (s.writeQueue.find? ·) (funext fun q => ?_)
        rw [agrees.sameAddress, sameAddress, sameAddress, (queueFind_some found).2]
      simp only [turned]
      split
      · rename_i leaves
        have erased : (s.flushOne number op).extractFromQueueLocked op =
            ({ s.flushOne number op with writeQueue := s.writeQueue.erase op }, some op) := by
          simp only [extractFromQueueLocked, again, queue]
        have agrees' := extract_agrees (s.flushOne number op) op
        rw [erased] at agrees'
        have rest := ih _ (nodup.erase op) ((agrees.trans agrees').apart apartRest)
        have flushed := flushed_cons nodup apart found (agrees.trans agrees') cell (by simp [leaves])
          (flushOne_log s number op) (flushOne_target s number op) rest
        simpa only [erased, leaves, if_true, Option.toList_some] using flushed
      · rename_i stays
        have rest := ih (s.flushOne number op) (queue ▸ nodup) (agrees.apart apartRest)
        have flushed := flushed_cons nodup apart found agrees cell (by simp [stays, queue])
          (flushOne_log s number op) (flushOne_target s number op) rest
        simpa only [stays, Bool.false_eq_true, if_false, List.nil_append] using flushed

end Bkmail.ContextCore
