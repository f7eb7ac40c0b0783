import Bkmail.Context.Batches

namespace Bkmail

/-- A segment that a drain put into the staging buffer: the number of the drain, the cell, the
    bytes. -/
def Event.staging? : Event → Option (Nat × OpId × Bytes)
  | .staged number op segment => some (number, op, segment)
  | _ => none

def stagings (log : List Event) : List (Nat × OpId × Bytes) := log.filterMap Event.staging?

@[simp] theorem stagings_append (before after : List Event) :
    stagings (before ++ after) = stagings before ++ stagings after := by
  simp [stagings]

theorem stagings_nil {events : List Event} (none : ∀ event ∈ events, event.staging? = none) :
    stagings events = [] :=
  List.filterMap_eq_nil_iff.mpr none

theorem stagings_inert {events : List Event} (inert : ∀ event ∈ events, event.ofCell = false) :
    stagings events = [] :=
  stagings_nil fun event member => by
    have plain := inert event member
    cases event <;> simp_all [Event.ofCell, Event.staging?]

theorem ContextCore.newDrain_reached (s : ContextCore) (ops : List OpId) :
    s.newDrain.reached ops = s.reached ops :=
  reached_congr fun _ _ => rfl

structure ContextCore.Kicked (s t : ContextCore) : Prop where
  drains : t.drains = s.drains + 1
  cell : ∀ op, t.cell op = if op ∈ s.reached s.writeQueue then (s.cell op).onSegmentStaged
    else s.cell op
  log : t.log = s.log ++ (s.reached s.writeQueue).map fun op =>
    .staged (s.drains + 1) op (s.cell op).nextSegment
  staging : t.writeStaging = (s.reached s.writeQueue).flatMap fun op => (s.cell op).nextSegment
  queue : t.writeQueue = s.writeQueue
  target : ∀ p, t.continuationTarget = some p → s.continuationTarget = some p ∨
    p ∈ s.reached s.writeQueue ∧ (s.cell p).awaitsContinuation = true

theorem ContextCore.kicked (s : ContextCore) (nodup : s.writeQueue.Nodup) :
    s.Kicked (s.newDrain.drain s.writeQueue).1 := by
  have drained := drain_drained s.newDrain s.writeQueue nodup
  have same := s.newDrain_reached s.writeQueue
  exact ⟨(drain_agrees s.writeQueue s.newDrain).drains, same ▸ drained.cell, same ▸ drained.log,
    same ▸ drained.staging, drain_queue s.writeQueue s.newDrain, same ▸ drained.target⟩

theorem ContextCore.Kicked.stagings {s t : ContextCore} (kicked : s.Kicked t) :
    stagings t.log = stagings s.log ++ (s.reached s.writeQueue).map fun op =>
      (s.drains + 1, op, (s.cell op).nextSegment) := by
  rw [kicked.log, stagings_append]
  congr 1
  induction s.reached s.writeQueue with
  | nil => rfl
  | cons op ops ih => simpa [Bkmail.stagings, Event.staging?] using ih

/-- Only a kick stages anything; every other section leaves the staging buffer alone. -/
theorem Section.Runs.stagings {s : ContextCore} {sec : Section} {o : Outcome} (runs : sec.Runs s o)
    (nodup : s.writeQueue.Nodup) :
    stagings o.core.log = stagings s.log ∧ o.core.writeStaging = s.writeStaging ∧
    o.core.drains = s.drains ∨ sec = .work .kick .go ∧ s.phase = .opened ∧ s.writeInFlight = false ∧
    s.Kicked o.core := by
  obtain ⟨acted, acts, quiet⟩ := runs.acts
  obtain ⟨events, logged, inert⟩ := quiet.log
  have later : Bkmail.stagings o.core.log = Bkmail.stagings acted.log := by
    rw [logged, stagings_append, stagings_inert inert, List.append_nil]
  have kept : Bkmail.stagings acted.log = Bkmail.stagings s.log → acted.writeStaging = s.writeStaging →
      acted.drains = s.drains → Bkmail.stagings o.core.log = Bkmail.stagings s.log ∧
        o.core.writeStaging = s.writeStaging ∧ o.core.drains = s.drains := fun log staging drains =>
    ⟨later.trans log, quiet.writeStaging.trans staging, quiet.drains.trans drains⟩
  cases acts with
  | enqueue | flushCall | terminate | onTagged | continuation =>
    exact .inl (kept (by simp [Bkmail.stagings, Event.staging?]) rfl rfl)
  | flush batch =>
    obtain ⟨flushed, logged, only⟩ := ContextCore.flushLoop_logs batch.number batch.ops s.unlatchWrite
    refine .inl (kept ?_ (ContextCore.flushLoop_staging batch.number batch.ops s.unlatchWrite)
      (ContextCore.flushLoop_agrees batch.number batch.ops s.unlatchWrite).drains)
    have none : Bkmail.stagings flushed = [] := stagings_nil fun event member => by
      obtain ⟨op, rfl⟩ := only event member
      rfl
    rw [logged, stagings_append, none, List.append_nil, ContextCore.unlatchWrite_log]
  | kick opened idle =>
    have kicked := s.kicked nodup
    refine .inr ⟨rfl, opened, idle, ?_⟩
    cases runs
    unfold ContextCore.kick
    rw [if_neg (by simp [opened, idle])]
    simp only
    split
    · exact kicked
    · exact ⟨kicked.drains, kicked.cell, kicked.log, kicked.staging, kicked.queue, kicked.target⟩
  | _ => exact .inl (kept rfl rfl rfl)

def Event.enqueued? : Event → Option OpId
  | .enqueued op => some op
  | _ => none

def enqueuedOps (log : List Event) : List OpId := log.filterMap Event.enqueued?

theorem enqueuedOps_nil {events : List Event} (none : ∀ event ∈ events, event.enqueued? = none) :
    enqueuedOps events = [] :=
  List.filterMap_eq_nil_iff.mpr none

@[simp] theorem enqueuedOps_append (before after : List Event) :
    enqueuedOps (before ++ after) = enqueuedOps before ++ enqueuedOps after := by
  simp [enqueuedOps]

theorem mem_enqueuedOps {log : List Event} {op : OpId} : op ∈ enqueuedOps log ↔ .enqueued op ∈ log := by
  constructor
  · intro member
    obtain ⟨event, logged, found⟩ := List.mem_filterMap.mp member
    cases event <;> simp_all [Event.enqueued?]
  · exact fun logged => List.mem_filterMap.mpr ⟨_, logged, rfl⟩

/-- A cell enters the queue at its end and in the section that logs it. -/
theorem Section.Runs.enqueues {s : ContextCore} {sec : Section} {o : Outcome} (runs : sec.Runs s o) :
    enqueuedOps o.core.log = enqueuedOps s.log ∧ o.core.writeQueue.Sublist s.writeQueue ∨
      ∃ op post, sec = .work (.enqueueOperation op post) .go ∧ s.phase = .opened ∧
        enqueuedOps o.core.log = enqueuedOps s.log ++ [op] ∧
        o.core.writeQueue.Sublist (s.writeQueue ++ [op]) := by
  obtain ⟨acted, acts, quiet⟩ := runs.acts
  obtain ⟨events, logged, inert⟩ := quiet.log
  have later : enqueuedOps o.core.log = enqueuedOps acted.log := by
    have none : enqueuedOps events = [] := enqueuedOps_nil fun event member => by
      have plain := inert event member
      cases event <;> simp_all [Event.ofCell, Event.enqueued?]
    rw [logged, enqueuedOps_append, none, List.append_nil]
  have lost := quiet.queue
  cases acts with
  | enqueue op post opened =>
    refine .inr ⟨op, post, rfl, opened, later.trans ?_, lost⟩
    simp [enqueuedOps, Event.enqueued?]
  | flushCall | terminate | onTagged | continuation =>
    exact .inl ⟨later.trans (by simp [enqueuedOps, Event.enqueued?]), lost⟩
  | kick =>
    obtain ⟨staged, logged, only⟩ := ContextCore.drain_logs s.writeQueue s.newDrain
    rw [ContextCore.drain_queue] at lost
    refine .inl ⟨later.trans ?_, lost⟩
    have none : enqueuedOps staged = [] := enqueuedOps_nil fun event member => by
      obtain ⟨op, segment, rfl⟩ := only event member
      rfl
    rw [logged, enqueuedOps_append, none, List.append_nil, ContextCore.newDrain_log]
  | flush batch =>
    obtain ⟨flushed, logged, only⟩ := ContextCore.flushLoop_logs batch.number batch.ops s.unlatchWrite
    refine .inl ⟨later.trans ?_,
      lost.trans (ContextCore.flushLoop_sublist batch.number batch.ops s.unlatchWrite)⟩
    have none : enqueuedOps flushed = [] := enqueuedOps_nil fun event member => by
      obtain ⟨op, rfl⟩ := only event member
      rfl
    rw [logged, enqueuedOps_append, none, List.append_nil, ContextCore.unlatchWrite_log]
  | _ => exact .inl ⟨later, lost⟩

structure Enlisted (core : ContextCore) (pending : List Work) : Prop where
  ordered : core.writeQueue.Sublist (enqueuedOps core.log)
  nodup : (enqueuedOps core.log).Nodup
  bound : ∀ op ∈ enqueuedOps core.log, op < core.made
  once : ∀ op ∈ enqueuedOps core.log, ∀ post, .enqueueOperation op post ∉ pending

namespace Enlisted

variable {core : ContextCore} {pending : List Work}

theorem permuted {after : List Work} (perm : pending.Perm after) (enlisted : Enlisted core pending) :
    Enlisted core after :=
  { enlisted with once := fun op member post pends => enlisted.once op member post (perm.symm.subset pends) }

theorem initial : Enlisted {} [.armRead] :=
  ⟨.refl _, .nil, by simp [enqueuedOps], by simp [enqueuedOps]⟩

theorem preserved {sec : Section} {others : List Work} {o : Outcome} (runs : sec.Runs core o)
    (consumed : pending.Perm (sec.consumed ++ others)) (custody : Custody core pending)
    (enlisted : Enlisted core pending) : Enlisted o.core (o.produced ++ others) := by
  have grows : core.made ≤ o.core.made := runs.heap.1 ▸ Nat.le_add_right _ _
  have new : ∀ op post, .enqueueOperation op post ∈ o.produced → op = core.made := by
    intro op post member
    cases runs.spawns member rfl
    rfl
  rcases runs.enqueues with ⟨same, lost⟩ | ⟨op, post, rfl, opened, grown, queue⟩
  · refine ⟨?_, ?_, ?_, ?_⟩ <;> rw [same]
    · exact lost.trans enlisted.ordered
    · exact enlisted.nodup
    · exact fun op member => Nat.lt_of_lt_of_le (enlisted.bound op member) grows
    · intro op member post pends
      rcases List.mem_append.mp pends with produced | other
      · exact Nat.lt_irrefl _ (new op post produced ▸ enlisted.bound op member)
      · exact enlisted.once op member post (consumed.symm.subset (List.mem_append_right _ other))
  · have pends : .enqueueOperation op post ∈ pending := consumed.symm.subset List.mem_cons_self
    have bound : op < core.made :=
      custody.made op (custody.owned_live pends (List.mem_singleton.mpr rfl))
    have fresh : op ∉ enqueuedOps core.log := fun member => enlisted.once op member post pends
    refine ⟨?_, ?_, ?_, ?_⟩ <;> rw [grown]
    · exact queue.trans (enlisted.ordered.append_right [op])
    · refine List.nodup_append.mpr ⟨enlisted.nodup, by simp, ?_⟩
      rintro p member q single rfl
      exact fresh (List.mem_singleton.mp single ▸ member)
    · intro p member
      refine Nat.lt_of_lt_of_le ?_ grows
      rcases List.mem_append.mp member with old | single
      · exact enlisted.bound p old
      · rw [List.mem_singleton.mp single]
        exact bound
    · intro p member again pending'
      rcases List.mem_append.mp pending' with produced | other
      · have made := new p again produced
        rcases List.mem_append.mp member with old | single
        · exact Nat.lt_irrefl _ (made ▸ enlisted.bound p old)
        · exact Nat.lt_irrefl _ (made ▸ List.mem_singleton.mp single ▸ bound)
      · rcases List.mem_append.mp member with old | single
        · exact enlisted.once p old again (consumed.symm.subset (List.mem_append_right _ other))
        · -- The cell would be owned twice.
          rw [List.mem_singleton.mp single] at other
          have nodup := (custody.permuted consumed).nodup_owned
          have twice := (List.nodup_append.mp nodup).2.1
          simp only [Section.consumed, List.singleton_append, List.flatMap_cons] at twice
          exact (List.nodup_cons.mp twice).1 (List.mem_flatMap.mpr ⟨_, other,
            List.mem_singleton.mpr rfl⟩)

theorem of_run {guard : ContextCore → List Work → Section → Prop} {s : System}
    (run : GuardedRun guard s) :
    Enlisted s.core s.pending :=
  run.invariant Enlisted (fun _ _ _ perm enlisted => enlisted.permuted perm) initial
    fun _ _ _ _ earlier consumed enlisted _ runs => enlisted.preserved runs consumed (.of_run earlier)

end Enlisted

end Bkmail
