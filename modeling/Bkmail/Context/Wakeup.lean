import Bkmail.Context.Silence
import Mathlib.Data.List.Induction

namespace Bkmail

def Event.awaitFlush (ops : List OpId) : Event → List OpId
  | .flushCalled => []
  | .enqueued op => ops ++ [op]
  | _ => ops

def unflushed (log : List Event) : List OpId := log.foldl Event.awaitFlush []

theorem unflushed_enqueued (log : List Event) : unflushed log ⊆ enqueuedOps log := by
  induction log using List.reverseRecOn with
  | nil => simp [unflushed]
  | append_singleton log event ih =>
    intro op waits
    rw [unflushed, List.foldl_append] at waits
    rw [enqueuedOps_append]
    cases event with
    | flushCalled => simp [Event.awaitFlush] at waits
    | enqueued q =>
      rcases List.mem_append.mp waits with old | new
      · exact List.mem_append_left _ (ih old)
      · exact List.mem_append_right _ (by simpa [enqueuedOps, Event.enqueued?] using new)
    | _ => exact List.mem_append_left _ (ih waits)

theorem unflushed_subset {log events : List Event} (none : .flushCalled ∉ events) :
    unflushed log ⊆ unflushed (log ++ events) := by
  induction events generalizing log with
  | nil => simp
  | cons event events ih =>
    have step : unflushed log ⊆ unflushed (log ++ [event]) := by
      cases event <;> simp_all [unflushed, Event.awaitFlush]
    have rest : unflushed (log ++ [event]) ⊆ unflushed (log ++ [event] ++ events) :=
      ih fun member => none (List.mem_cons_of_mem _ member)
    rw [List.append_assoc] at rest
    exact List.Subset.trans step rest

/-- Every plain handler that was submitted was flushed afterwards. -/
def AllFlushed (core : ContextCore) : Prop :=
  ∀ op ∈ unflushed core.log, (core.cell op).callbackPath = false

instance (core : ContextCore) : Decidable (AllFlushed core) :=
  inferInstanceAs (Decidable (∀ op ∈ unflushed core.log, _))

def Operation.parked (op : Operation) : Bool := op.awaitsContinuation && op.nextSegment == []

structure Operation.SameFlow (before after : Operation) : Prop where
  written : after.isWritten = before.isWritten
  segment : after.nextSegment = before.nextSegment
  awaits : after.awaitsContinuation = before.awaitsContinuation
  blocks : after.blocksPipeline = before.blocksPipeline

theorem Operation.SameFlow.trans {a b c : Operation} (first : a.SameFlow b)
    (second : b.SameFlow c) : a.SameFlow c :=
  ⟨second.written.trans first.written, second.segment.trans first.segment,
    second.awaits.trans first.awaits, second.blocks.trans first.blocks⟩

theorem Operation.SameWire.flow {before after : Operation} (same : before.SameWire after) :
    before.SameFlow after :=
  ⟨same.isWritten, same.nextSegment, same.awaitsContinuation, same.blocksPipeline⟩

namespace ContextCore

/-- The drain finds every queued cell as it was, and the latches are as they were. -/
structure Steady (s t : ContextCore) : Prop where
  flow : ∀ op ∈ s.writeQueue, (s.cell op).SameFlow (t.cell op)
  writeInFlight : t.writeInFlight = s.writeInFlight
  kickPosted : t.kickPosted = s.kickPosted

/-- A section that gives the drain nothing new to stage: the queue at most loses cells that are no
    walls. -/
structure Calm (s t : ContextCore) : Prop extends s.Steady t where
  queue : t.writeQueue.Sublist s.writeQueue
  gone : ∀ op ∈ s.writeQueue, op ∉ t.writeQueue → (s.cell op).parked = false

theorem reached_flow {s t : ContextCore} {ops : List OpId}
    (flow : ∀ op ∈ ops, (s.cell op).SameFlow (t.cell op)) :
    t.reached ops = s.reached ops := by
  induction ops with
  | nil => rfl
  | cons op ops ih =>
    have here := flow op List.mem_cons_self
    simp only [reached, here.written, here.segment, here.awaits, here.blocks,
      ih fun q member => flow q (List.mem_cons_of_mem _ member)]

/-- Cells that are no walls hold nothing back. -/
theorem reached_thinned {s : ContextCore} {ops fewer : List OpId} (sub : fewer.Sublist ops)
    (nodup : ops.Nodup)
    (gone : ∀ op ∈ ops, op ∉ fewer → (s.cell op).parked = false) (none : s.reached ops = []) :
    s.reached fewer = [] := by
  induction sub with
  | slnil => rfl
  | @cons fewer ops op sub ih =>
    obtain ⟨fresh, nodup⟩ := List.nodup_cons.mp nodup
    have free := gone op List.mem_cons_self fun member => fresh (sub.subset member)
    refine ih nodup (fun q member => gone q (List.mem_cons_of_mem _ member)) ?_
    simp only [reached] at none
    split at none
    · exact none
    · split at none
      · rename_i segment
        simp only [Operation.parked, segment, beq_self_eq_true, Bool.and_true] at free
        rwa [if_neg (by simp [free])] at none
      · split at none <;> simp at none
  | @cons_cons fewer ops op sub ih =>
    obtain ⟨fresh, nodup⟩ := List.nodup_cons.mp nodup
    have rest : s.reached ops = [] → s.reached fewer = [] := ih nodup fun q member missing => by
      refine gone q (List.mem_cons_of_mem _ member) fun present => ?_
      rcases List.mem_cons.mp present with rfl | present
      · exact fresh member
      · exact missing present
    simp only [reached] at none ⊢
    split at none
    · rename_i written
      rw [if_pos written]
      exact rest none
    · rename_i unwritten
      rw [if_neg unwritten]
      split at none
      · rename_i segment
        rw [if_pos segment]
        split at none
        · rename_i awaits
          rw [if_pos awaits]
        · rename_i free
          rw [if_neg free]
          exact rest none
      · split at none <;> simp at none

theorem Calm.reached {s t : ContextCore} (calm : s.Calm t) (nodup : s.writeQueue.Nodup)
    (filled : t.reached t.writeQueue ≠ []) : s.reached s.writeQueue ≠ [] := by
  intro none
  refine filled ?_
  rw [reached_flow fun op member => calm.flow op (calm.queue.subset member)]
  exact reached_thinned calm.queue nodup calm.gone none

end ContextCore

def Work.kicks : Work → Bool
  | .postKick | .kickGate | .kick | .writeFailed .. | .writeLost .. => true
  | _ => false

def Woken (core : ContextCore) (pending : List Work) : Prop :=
  core.writeInFlight = true ∨ core.kickPosted = true ∨ ∃ w ∈ pending, w.kicks = true

instance (core : ContextCore) (pending : List Work) : Decidable (Woken core pending) :=
  inferInstanceAs (Decidable (_ ∨ _ ∨ _))

def Section.unposts : Section → Bool
  | .work .kickScheduled (.failed _) => true
  | _ => false

def Section.answered (core : ContextCore) : Section → Option OpId
  | .work (.readLoop (text :: _)) _ =>
    match Parser.parse text with
    | some (.tagged r) => (ContextCore.lookup core.registry r.tag).bind core.queueFind
    | _ => none
  | _ => none

/-- A posted schedule that fails leaves nothing behind that could be staged, unless somebody else is
    going to drain the queue. -/
def Scheduled (core : ContextCore) (pending : List Work) (sec : Section) : Prop :=
  sec.unposts = true → core.reached core.writeQueue = [] ∨
    Woken { core with kickPosted := false } pending

instance (core : ContextCore) (pending : List Work) (sec : Section) :
    Decidable (Scheduled core pending sec) :=
  inferInstanceAs (Decidable (_ → _))

/-- Neither does a tagged reply that takes a wall out of the queue. -/
def Rekicked (core : ContextCore) (pending : List Work) (sec : Section) : Prop :=
  Scheduled core pending sec ∧
    ∀ op ∈ sec.answered core, (core.cell op).parked = true →
      core.reached (core.writeQueue.erase op) = [] ∨ Woken core pending

instance (core : ContextCore) (pending : List Work) (sec : Section) :
    Decidable (Rekicked core pending sec) :=
  inferInstanceAs (Decidable (_ ∧ _))

def Section.stirs : Section → Bool
  | .call .flush => true
  | .call _ => false
  | .work w _ => w.kicks

theorem Woken.carried {core : ContextCore} {pending others : List Work} {sec : Section} {o : Outcome}
    (consumed : pending.Perm (sec.consumed ++ others)) (idle : sec.stirs = false)
    (inFlight : o.core.writeInFlight = core.writeInFlight)
    (posted : o.core.kickPosted = core.kickPosted)
    (woken : Woken core pending) : Woken o.core (o.produced ++ others) := by
  rcases woken with flying | scheduled | ⟨w, pends, kicks⟩
  · exact .inl (inFlight.trans flying)
  · exact .inr (.inl (posted.trans scheduled))
  · refine .inr (.inr ⟨w, ?_, kicks⟩)
    rcases List.mem_append.mp (consumed.subset pends) with used | other
    · cases sec with
      | call => simp [Section.consumed] at used
      | work v =>
        cases List.mem_singleton.mp used
        simp [Section.stirs, kicks] at idle
    · exact List.mem_append_right _ other

namespace ContextCore

theorem postKick_woken (s : ContextCore) (opened : s.postKick.core.phase = .opened)
    (filled : s.postKick.core.reached s.postKick.core.writeQueue ≠ []) :
    s.postKick.core.writeInFlight = true ∨ s.postKick.core.kickPosted = true := by
  unfold postKick at opened filled ⊢
  split at opened
  · rename_i stays
    simp only [stays, if_true] at filled ⊢
    rcases stays with past | flying | posted | empty
    · exact absurd opened past
    · exact .inl flying
    · exact .inr posted
    · simp [empty, reached] at filled
  · rename_i posts
    rw [if_neg posts]
    exact .inr rfl

theorem kick_woken (s : ContextCore) (nodup : s.writeQueue.Nodup) (opened : s.kick.core.phase = .opened)
    (filled : s.kick.core.reached s.kick.core.writeQueue ≠ []) : s.kick.core.writeInFlight = true := by
  have drained := drain_drained s.newDrain s.writeQueue nodup
  unfold kick at opened filled ⊢
  split at opened
  · rename_i stays
    rw [if_pos stays]
    exact stays.resolve_left (not_not.mpr opened)
  · rename_i drains
    rw [if_neg drains] at filled ⊢
    simp only at filled ⊢
    split
    · rename_i empty
      rw [if_pos empty] at filled
      simp only at filled
      rw [drained.staging] at empty
      have none : s.newDrain.reached s.writeQueue = [] :=
          List.eq_nil_iff_forall_not_mem.mpr fun op member =>
        reached_segment member
          (List.flatMap_eq_nil_iff.mp (List.append_eq_nil_iff.mp empty).2 op member)
      have same :
          ∀ op ∈ s.writeQueue, (s.newDrain.drain s.writeQueue).1.cell op = s.newDrain.cell op := by
        intro op _
        simp [drained.cell, none]
      rw [drain_queue] at filled
      exact absurd ((reached_congr same).trans none) filled
    · rfl

def Level (s t : ContextCore) : Prop :=
  (∀ op, (s.cell op).SameFlow (t.cell op)) ∧ t.writeInFlight = s.writeInFlight ∧
    t.kickPosted = s.kickPosted

theorem Level.refl (s : ContextCore) : s.Level s :=
  ⟨fun op => (Operation.SameWire.refl (s.cell op)).flow, rfl, rfl⟩

theorem Level.trans {s t u : ContextCore} (first : s.Level t) (second : t.Level u) : s.Level u :=
  ⟨fun op => (first.1 op).trans (second.1 op), second.2.1.trans first.2.1, second.2.2.trans first.2.2⟩

theorem Level.steady {s t : ContextCore} (level : s.Level t) : s.Steady t :=
  ⟨fun op _ => level.1 op, level.2.1, level.2.2⟩

theorem Level.of_quiet {s t : ContextCore} (quiet : s.Quiet t)
    (inFlight : t.writeInFlight = s.writeInFlight)
    (posted : t.kickPosted = s.kickPosted) : s.Level t :=
  ⟨fun op => (quiet.cells op).flow, inFlight, posted⟩

theorem Calm.level {s t : ContextCore} (flow : ∀ op ∈ s.writeQueue, (s.cell op).SameFlow (t.cell op))
    (queue : t.writeQueue = s.writeQueue) (inFlight : t.writeInFlight = s.writeInFlight)
    (posted : t.kickPosted = s.kickPosted) : s.Calm t :=
  ⟨⟨flow, inFlight, posted⟩, queue ▸ .refl _, fun _ queued gone => absurd (queue ▸ queued) gone⟩

theorem Level.calm {s t : ContextCore} (level : s.Level t) (queue : t.writeQueue = s.writeQueue) :
    s.Calm t :=
  .level (fun op _ => level.1 op) queue level.2.1 level.2.2

theorem Level.calm_erase {s t : ContextCore} (level : s.Level t) {op : OpId}
    (queue : t.writeQueue = s.writeQueue.erase op) (free : (s.cell op).parked = false) : s.Calm t := by
  refine ⟨level.steady, queue ▸ List.erase_sublist, fun q queued gone => ?_⟩
  by_cases same : q = op
  · exact same ▸ free
  · exact absurd (queue ▸ (List.mem_erase_of_ne same).mpr queued) gone

theorem Calm.of_same {s t : ContextCore} (cell : t.cell = s.cell) (queue : t.writeQueue = s.writeQueue)
    (inFlight : t.writeInFlight = s.writeInFlight) (posted : t.kickPosted = s.kickPosted) : s.Calm t :=
  Level.calm ⟨fun op => cell ▸ (Operation.SameWire.refl (s.cell op)).flow, inFlight, posted⟩ queue

theorem modify_level (s : ContextCore) (op : OpId) (change : Operation → Operation)
    (flow : (s.cell op).SameFlow (change (s.cell op))) : s.Level (s.modify op change) := by
  refine ⟨fun q => ?_, rfl, rfl⟩
  by_cases same : q = op
  · subst same
    simpa using flow
  · simpa [same] using (Operation.SameWire.refl (s.cell q)).flow

theorem extract_level (s : ContextCore) (op : OpId) : s.Level (s.extractFromQueueLocked op).1 :=
  .of_quiet (extract_quiet s op) (extract_agrees s op).writeInFlight (extract_agrees s op).kickPosted

theorem cancelWith_level (s : ContextCore) (tag : Tag) (expected : Option OpId) :
    .postKick ∈ (s.cancelWith tag expected).left ∨ s.Level (s.cancelWith tag expected).core := by
  unfold cancelWith
  split
  · exact .inr (.refl s)
  · have cancelled := findAndDetachLocked_cancelled s tag expected
    generalize s.findAndDetachLocked tag expected = result at cancelled
    cases cancelled with
    | refused | dangling => exact .inr (.refl s)
    | withdrawn p op => exact .inr (extract_level s op)
    | done p op => exact .inl (by simp)
    | detached p op => exact .inr (modify_level s op _ ⟨rfl, rfl, rfl, rfl⟩)

theorem readLoop_level (s : ContextCore) (texts : List Bytes) :
    .postKick ∈ (s.readLoop texts).left ∨ s.Level (s.readLoop texts).core := by
  cases texts with
  | nil => exact .inr (.refl s)
  | cons text rest =>
    simp only [readLoop, dispatch]
    split
    · exact .inr (.refl s)
    · rename_i r _
      unfold dispatchTagged
      split
      · exact .inr (.refl s)
      · rename_i p _
        have level := extract_level (s.forget r.tag p) p
        split <;> rename_i extracted <;> rw [extracted] at level <;> exact .inr level
    · exact .inr (.refl s)
    · unfold dispatchContinuation
      split
      · exact .inr (.refl s)
      · simp only
        split <;> exact .inl List.mem_cons_self

/-- What a tagged reply leaves of the queue. -/
theorem readLoop_queue (s : ContextCore) (texts : List Bytes) :
    (s.readLoop texts).core.writeQueue = s.writeQueue ∨
      ∃ text rest r op, texts = text :: rest ∧ Parser.parse text = some (.tagged r) ∧
        (lookup s.registry r.tag).bind s.queueFind = some op ∧
        (s.readLoop texts).core.writeQueue = s.writeQueue.erase op := by
  cases texts with
  | nil => exact .inl rfl
  | cons text rest =>
    simp only [readLoop, dispatch]
    split
    · exact .inl rfl
    · rename_i r parsed
      unfold dispatchTagged
      split
      · exact .inl rfl
      · rename_i p found
        have search : (s.forget r.tag p).queueFind p = s.queueFind p := rfl
        unfold extractFromQueueLocked
        rw [search]
        cases hit : s.queueFind p with
        | none => exact .inl rfl
        | some op => exact .inr ⟨text, rest, r, op, rfl, parsed, by simp [found, hit], rfl⟩
    · exact .inl rfl
    · unfold dispatchContinuation
      split
      · exact .inl rfl
      · simp only
        split <;> exact .inl rfl

end ContextCore

/-- A cell that is to be registered posts a kick on the sender path only, and a write is settled
    quietly only when the shell is gone. -/
structure Pathed (core : ContextCore) (pending : List Work) : Prop where
  plain : ∀ op post, .enqueueOperation op post ∈ pending → (core.cell op).callbackPath = !post
  quiet : ∀ batch, .writeQuiet batch ∈ pending → core.abandoned = true

namespace Pathed

variable {core : ContextCore} {pending others : List Work} {sec : Section} {o : Outcome}

theorem permuted {after : List Work} (perm : pending.Perm after) (pathed : Pathed core pending) :
    Pathed core after :=
  ⟨fun op post pends => pathed.plain op post (perm.symm.subset pends),
    fun batch pends => pathed.quiet batch (perm.symm.subset pends)⟩

theorem preserved (runs : sec.Runs core o) (consumed : pending.Perm (sec.consumed ++ others))
    (custody : Custody core pending) (pathed : Pathed core pending) :
    Pathed o.core (o.produced ++ others) := by
  refine ⟨?_, ?_⟩
  · intro op post pends
    rcases List.mem_append.mp pends with produced | other
    · cases runs.spawns produced rfl with
      | submit =>
        cases runs
        simp [ContextCore.attach, Operation.attach]
    · have pends := consumed.symm.subset (List.mem_append_right _ other)
      have live := custody.owned_live pends (List.mem_singleton.mpr rfl)
      exact (runs.fixed (custody.made op live)).callbackPath.trans (pathed.plain op post pends)
  · intro batch pends
    rcases List.mem_append.mp pends with produced | other
    · cases runs.spawns produced rfl with
      | writeDone _ gone =>
        cases runs
        exact gone
    · have gone := pathed.quiet batch (consumed.symm.subset (List.mem_append_right _ other))
      rcases runs.abandons with same | ⟨-, now⟩
      · exact same.trans gone
      · exact now

theorem of_run {guard : ContextCore → List Work → Section → Prop} {s : System}
    (run : GuardedRun guard s) :
    Pathed s.core s.pending :=
  run.invariant Pathed (fun _ _ _ perm pathed => pathed.permuted perm) ⟨by simp, by simp⟩
    fun _ _ _ _ earlier consumed pathed _ runs => pathed.preserved runs consumed (.of_run earlier)

end Pathed

namespace Section

variable {core : ContextCore} {pending others : List Work} {sec : Section} {o : Outcome}

theorem Routes.calm {c : Call} (routes : Section.Routes core (.call c) o)
    (before : core.phase = .opened)
    (opened : o.core.phase = .opened) (level : core.Level o.core) : core.Calm o.core := by
  cases routes with
  | idle _ _ _ queue | detach _ _ _ _ _ _ _ _ _ _ queue => exact level.calm queue
  | withdraw _ _ _ op _ _ _ _ free _ queue =>
      exact level.calm_erase queue (by simp [Operation.parked, free])
  | purge _ _ draining | close _ draining => simp [draining] at opened
  | retire _ _ _ torn | drop _ _ torn => exact absurd before torn

/-- A section that lets a cell be staged that was not before, and rouses nobody: it registers a
    plain handler, or hands out the reply of a wall. -/
def Exposes (core : ContextCore) (sec : Section) (o : Outcome) : Prop :=
  (∃ op ∈ unflushed o.core.log, (o.core.cell op).callbackPath = true) ∨
    ∃ op ∈ sec.answered core, (core.cell op).parked = true ∧
    o.core.writeQueue = core.writeQueue.erase op

/-- A section either leaves the latches and the queued cells as they are, or somebody is going to
    drain the queue after it. -/
theorem Runs.stirs (runs : sec.Runs core o) (consumed : pending.Perm (sec.consumed ++ others))
    (grounded : Grounded core pending)
    (pathed : Pathed core pending) (allowed : Scheduled core pending sec)
    (opened : o.core.phase = .opened) :
    sec.stirs = false ∧ core.Steady o.core ∧ (core.Calm o.core ∨ Exposes core sec o) ∨
      (o.core.reached o.core.writeQueue ≠ [] → Woken o.core (o.produced ++ others)) := by
  have before := runs.controls.opens opened
  have alive : core.abandoned = false := by
    cases gone : core.abandoned with
    | false => rfl
    | true => exact absurd before (grounded.latched.abandoned gone)
  have custody := grounded.custody
  have rouses : ∀ w, w ∈ o.produced → w.kicks = true → Woken o.core (o.produced ++ others) :=
      fun w made kicks =>
    .inr (.inr ⟨w, List.mem_append_left _ made, kicks⟩)
  have still : core.Calm o.core → sec.stirs = false → sec.stirs = false ∧ core.Steady o.core ∧
      (core.Calm o.core ∨ Exposes core sec o) ∨
        (o.core.reached o.core.writeQueue ≠ [] → Woken o.core (o.produced ++ others)) :=
    fun calm idle => .inl ⟨idle, calm.toSteady, .inl calm⟩
  cases runs with
  | flush =>
    refine .inr fun filled => ?_
    exact (ContextCore.postKick_woken _ opened filled).imp_right .inl
  | postKick =>
    refine .inr fun filled => ?_
    exact (ContextCore.postKick_woken _ opened filled).imp_right .inl
  | kickScheduled => exact .inr fun _ => rouses .kickGate (by simp [Outcome.produced, ContextCore.kickReceiver]) rfl
  | kickGate => exact .inr fun _ => rouses .kick (by simp [Outcome.produced, ContextCore.kickGate, alive]) rfl
  | kick => exact .inr fun filled => .inl (ContextCore.kick_woken _ custody.nodup_queue opened filled)
  | writeError batch ec =>
    exact .inr fun _ =>
      rouses (.writeFailed ec _) (by simp [Outcome.produced, ContextCore.onWriteDone]; rfl) rfl
  | writeFailed ec retired =>
    exact .inr fun _ => rouses (.writeLost ec retired) (by simp [Outcome.produced,
      ContextCore.writeFailed, alive]) rfl
  | writeFlushed batch =>
    exact .inr fun _ => rouses .kick (by simp [Outcome.produced, ContextCore.writeFlushed, before]) rfl
  | writeLost ec retired =>
    rcases core.connectionLost_routes ec with ⟨closed, -⟩ | ⟨draining, -⟩
    · simp [closed] at before
    · exact absurd (draining.symm.trans opened) (by simp)
  | connectionLost ec =>
    rcases core.connectionLost_routes ec with ⟨closed, -⟩ | ⟨draining, -⟩
    · simp [closed] at before
    · exact absurd (draining.symm.trans opened) (by simp)
  | readLost =>
    rcases core.connectionLost_routes .unexpectedResponse with ⟨closed, -⟩ | ⟨draining, -⟩
    · simp [closed] at before
    · exact absurd (draining.symm.trans opened) (by simp)
  | close => simp [ContextCore.close, before] at opened
  | abandon => simp [ContextCore.abandon, before] at opened
  | writeQuiet batch =>
      simp [pathed.quiet batch (Grounded.consumed_mem consumed List.mem_cons_self)] at alive
  | armWrite batch =>
    have arms : core.armWrite batch =
        { core := core.emit [.writeArmed batch.number], armed := [.writing batch] } := by
      simp [ContextCore.armWrite, before, alive]
    exact still (arms ▸ .of_same rfl rfl rfl rfl) rfl
  | kickRefused ec =>
    refine .inr fun filled => ?_
    rcases allowed rfl with none | woken
    · have same :
        (core.kickReceiver false).core.reached core.writeQueue = core.reached core.writeQueue :=
        ContextCore.reached_congr fun _ _ => rfl
      exact absurd (same.trans none) filled
    · exact Woken.carried consumed rfl rfl rfl woken
  | enqueueOperation op post =>
    have pends : .enqueueOperation op post ∈ pending :=
      Grounded.consumed_mem consumed List.mem_cons_self
    have registered : core.Level (core.register op) := (ContextCore.Level.refl core)
    cases stop : (core.cell op).stopSeen with
    | true =>
      have ends : (core.enqueueOperation op post).core =
          (((core.register op).takeStopRequest op).extractFromQueueLocked op).1.unregister
          (core.cell op).tag := by
        simp [ContextCore.enqueueOperation, before, stop]
      have taken := (core.register op).modify_level op (fun c => { c with stopSeen := false }) ⟨rfl,
        rfl, rfl, rfl⟩
      have same := (registered.trans taken).trans (ContextCore.extract_level _ op)
      refine still ?_ rfl
      rw [ends]
      exact ContextCore.Level.calm same (ContextCore.revoked_queue custody pends)
    | false =>
      have ends : core.enqueueOperation op post =
          { core := core.register op, left := if post then [.postKick] else [] } := by
        simp [ContextCore.enqueueOperation, before, stop]
      cases post with
      | true => exact .inr fun _ => rouses .postKick (by simp [Outcome.produced, ends]) rfl
      | false =>
        have waits : op ∈ unflushed (core.register op).log := by simp [unflushed, Event.awaitFlush]
        refine .inl ⟨rfl, ?_, .inr (.inl ⟨op, ?_⟩)⟩
        · exact ends ▸ registered.steady
        · exact ends ▸ ⟨waits, pathed.plain op false pends⟩
  | cancel tag =>
    have routes := (Runs.cancel (s := core) tag).routes consumed grounded
    rcases core.cancelWith_level tag none with kick | same
    · exact .inr fun _ => rouses .postKick (List.mem_append_left _ kick) rfl
    · exact still (routes.calm before opened same) rfl
  | requestStop op live unfinished =>
    have routes := (Runs.requestStop (s := core) op live unfinished).routes consumed grounded
    have stop : core.Level (core.modify op fun c => { c with stopSeen := true }) :=
      core.modify_level op _ ⟨rfl, rfl, rfl, rfl⟩
    rcases (core.modify op fun c =>
      { c with stopSeen := true }).cancelWith_level (core.cell op).tag (some op) with
      kick | same
    · exact .inr fun _ => rouses .postKick (List.mem_append_left _ kick) rfl
    · exact still (routes.calm before opened (stop.trans same)) rfl
  | readLoop texts =>
    rcases core.readLoop_level texts with kick | same
    · exact .inr fun _ => rouses .postKick (List.mem_append_left _ kick) rfl
    rcases core.readLoop_queue texts with queue | ⟨text, rest, r, op, rfl, parsed, found, queue⟩
    · exact still (same.calm queue) rfl
    cases parked : (core.cell op).parked with
    | false => exact still (same.calm_erase queue parked) rfl
    | true =>
      have answered : op ∈ Section.answered core (.work (.readLoop (text :: rest)) .go) := by
        simp [Section.answered, parsed, found]
      exact .inl ⟨rfl, same.steady, .inr (.inr ⟨op, answered, parked, queue⟩)⟩
  | allocateTag | suspend => exact still (.of_same rfl rfl rfl rfl) rfl
  | submit tag request addr callbackPath =>
    refine still (.level (fun op queued => ?_) rfl rfl rfl) rfl
    have older := Nat.ne_of_lt (grounded.queue_made queued)
    simpa [ContextCore.attach,
      Function.update_of_ne older] using (Operation.SameWire.refl (core.cell op)).flow
  | postCompleteStopped | onReadFailed | dispose | readStop | writeDone =>
    exact still (.of_same rfl rfl rfl rfl) rfl
  | reading choice result =>
    refine still ?_ rfl
    unfold ContextCore.readReceiver
    split
    · cases result <;> exact .of_same rfl rfl rfl rfl
    · exact .of_same rfl rfl rfl rfl
  | stopScheduled op =>
    have agrees := core.completeStopped_agrees op
    have quiet := (core.emit [.terminal op .stopped]).deliverStopped_quiet op
    exact still (.level (fun q _ =>
      (quiet.cells q).flow) (by simp) agrees.writeInFlight agrees.kickPosted) rfl
  | fail op ec =>
    have agrees := core.fail_agrees op ec
    have quiet := (core.emit [.terminal op (.fail ec)]).deliverValue_quiet op (some ec)
    exact still (.level (fun q _ =>
      (quiet.cells q).flow) (by simp) agrees.writeInFlight agrees.kickPosted) rfl
  | onTagged op r =>
    have agrees := core.onTagged_agrees op r
    have unqueued : op ∉ core.writeQueue :=
      grounded.ledger.not_owed (Grounded.consumed_mem consumed List.mem_cons_self)
        (List.mem_singleton.mpr rfl)
    refine still (.level (fun q queued => ?_) (by simp) agrees.writeInFlight agrees.kickPosted) rfl
    cases grounded.cell_step consumed (Runs.onTagged op r) (grounded.queue_made queued) with
    | same wire => exact wire.flow
    | tagged _ ran =>
      cases ran
      exact absurd queued unqueued
    | stage ran | flush _ ran | «continue» _ _ _ _ ran | done _ _ _ _ _ ran | detach _ _ _ _ ran =>
        cases ran
  | maybeFinishClose =>
    refine still ?_ rfl
    unfold ContextCore.maybeFinishClose
    split <;> exact .of_same rfl rfl rfl rfl
  | armRead =>
    refine still ?_ rfl
    unfold ContextCore.armRead ContextCore.maybeFinishClose
    split
    · split <;> exact .of_same rfl rfl rfl rfl
    · exact .of_same rfl rfl rfl rfl
  | routeUntagged r =>
    have agrees := core.routeUntagged_agrees r
    have level :=
      ContextCore.Level.of_quiet (core.routeUntagged_quiet r) agrees.writeInFlight agrees.kickPosted
    exact still (level.calm (by simp)) rfl
  | rearm =>
    refine still ?_ rfl
    unfold ContextCore.rearm
    split <;> exact .of_same rfl rfl rfl rfl

theorem Runs.unflushed_subset {s : ContextCore} (runs : sec.Runs s o) (other : sec.stirs = false) :
    unflushed s.log ⊆ unflushed o.core.log := by
  obtain ⟨acted, acts, quiet⟩ := runs.acts
  obtain ⟨later, logged, inert⟩ := quiet.log
  have plain : .flushCalled ∉ later := fun member => by simpa [Event.ofCell] using inert _ member
  have earlier : ∃ events, acted.log = s.log ++ events ∧ .flushCalled ∉ events := by
    cases acts with
    | flushCall => cases other
    | enqueue | terminate | onTagged | continuation => exact ⟨_, rfl, by simp⟩
    | kick => cases other
    | flush batch =>
      obtain ⟨events, logged, only⟩ := ContextCore.flushLoop_logs batch.number batch.ops s.unlatchWrite
      exact ⟨events, logged, fun member => by simpa using only _ member⟩
    | nothing | allocateTag | attach | requestDone | detach | dispose =>
        exact ⟨[], (List.append_nil _).symm, by simp⟩
  obtain ⟨events, acted, none⟩ := earlier
  rw [logged, acted]
  exact List.Subset.trans (Bkmail.unflushed_subset none) (Bkmail.unflushed_subset plain)

end Section

/-- Whatever could be staged is going to be. -/
def Awake (core : ContextCore) (pending : List Work) : Prop :=
  core.phase = .opened → AllFlushed core → core.reached core.writeQueue ≠ [] → Woken core pending

theorem Woken.permuted {core : ContextCore} {pending after : List Work} (perm : pending.Perm after)
    (woken : Woken core pending) : Woken core after := by
  rcases woken with flying | posted | ⟨w, pends, kicks⟩
  · exact .inl flying
  · exact .inr (.inl posted)
  · exact .inr (.inr ⟨w, perm.subset pends, kicks⟩)

namespace Awake

variable {core : ContextCore} {pending others : List Work} {sec : Section} {o : Outcome}

theorem preserved (runs : sec.Runs core o) (consumed : pending.Perm (sec.consumed ++ others))
    (grounded : Grounded core pending) (pathed : Pathed core pending)
    (allowed : Rekicked core pending sec)
    (awake : Awake core pending) : Awake o.core (o.produced ++ others) := by
  intro opened flushed filled
  rcases runs.stirs consumed grounded pathed allowed.1 opened with ⟨idle, steady, exposed⟩ | woken
  · have woken : Woken core pending := by
      rcases exposed with calm | ⟨op, waits, plain⟩ | ⟨op, answered, parked, queue⟩
      · have before : AllFlushed core := fun op waits => by
          have made := grounded.enlisted.bound op (unflushed_enqueued _ waits)
          exact (runs.fixed made).callbackPath.symm.trans
            (flushed op (runs.unflushed_subset idle waits))
        exact awake (runs.controls.opens opened) before
          (calm.reached grounded.custody.nodup_queue filled)
      · exact absurd (flushed op waits) (by simp [plain])
      · refine (allowed.2 op answered parked).resolve_left fun none => filled ?_
        rw [queue, ContextCore.reached_flow fun q member =>
          steady.flow q (List.mem_of_mem_erase member), none]
    exact woken.carried consumed idle steady.writeInFlight steady.kickPosted
  · exact woken filled

theorem of_run {s : System} (run : GuardedRun Rekicked s) : Awake s.core s.pending :=
  run.invariant Awake (fun _ _ _ perm awake opened flushed filled =>
    (awake opened flushed filled).permuted perm)
    (fun _ _ filled => absurd rfl filled)
    fun _ _ _ _ earlier consumed awake allowed runs =>
      awake.preserved runs consumed (.of_run earlier) (.of_run earlier) allowed

end Awake

def Work.waits : Work → Bool
  | .reading | .writing _ | .kickScheduled | .stopScheduled _ => true
  | _ => false

/-- No thread is between two sections. -/
def System.Quiescent (s : System) : Prop := ∀ w ∈ s.pending, w.waits = true

instance (s : System) : Decidable s.Quiescent := inferInstanceAs (Decidable (∀ w ∈ s.pending, _))

theorem Woken.at_rest {s : System} (woken : Woken s.core s.pending) (quiescent : s.Quiescent) :
    s.core.writeInFlight = true ∨ s.core.kickPosted = true := by
  rcases woken with flying | posted | ⟨w, pends, kicks⟩
  · exact .inl flying
  · exact .inr posted
  · have waits := quiescent w pends
    cases w <;> simp [Work.waits, Work.kicks] at waits kicks

theorem ContextCore.kick_reached {s : ContextCore} (nodup : s.writeQueue.Nodup)
    (arms : s.kick.left ≠ []) :
    s.reached s.writeQueue ≠ [] := by
  have drained := drain_drained s.newDrain s.writeQueue nodup
  intro none
  have same : s.newDrain.reached s.writeQueue = s.reached s.writeQueue := reached_congr fun _ _ => rfl
  refine arms ?_
  unfold kick
  split
  · rfl
  · simp [drained.staging, same, none]

/-- No wakeup of the write pump is lost, as long as no wall is answered without anybody to drain
    what it held back. -/
theorem no_lost_wakeup {s : System} (run : GuardedRun Rekicked s) (opened : s.core.phase = .opened)
    (quiescent : s.Quiescent) (flushed : AllFlushed s.core) (stageable : s.core.kick.left ≠ []) :
    s.core.writeInFlight = true ∨ s.core.kickPosted = true := by
  have nodup := (Custody.of_run run).nodup_queue
  exact (Awake.of_run run opened flushed (ContextCore.kick_reached nodup stageable)).at_rest quiescent

/-- The APPEND is continued while a flushed NOOP waits behind it. -/
theorem no_lost_wakeup_append : ∃ s, GuardedRun Rekicked s ∧ s.core.writeQueue = [0, 1] ∧
    s.core.phase = .opened ∧ s.Quiescent ∧ AllFlushed s.core ∧ s.core.kick.left ≠ [] ∧
      (s.core.writeInFlight = true ∨ s.core.kickPosted = true) := by
  obtain ⟨s, run, here⟩ := GuardedRun.of_trace Rekicked
    (appendContinued ++ [.resume 1 .go, .resume 1 .go, .resume 1 .go])
    (fun s => decide (s.core.writeQueue = [0, 1] ∧ s.core.phase = .opened ∧ s.Quiescent ∧
    AllFlushed s.core ∧ s.core.kick.left ≠ [])) (by decide)
  obtain ⟨queue, opened, quiescent, flushed, stageable⟩ := of_decide_eq_true here
  exact ⟨s, run, queue, opened, quiescent, flushed, stageable,
    no_lost_wakeup run opened quiescent flushed stageable⟩

/-- A NOOP is flushed behind an APPEND that waits for its continuation, and the APPEND is
    refused. -/
def wallRefused : List Action :=
  flushed (.append { mailbox := ascii "box", message := ascii "m" }) ++
    [.call .allocateTag, .call (.submit (tagText 2) (.line noopCommand) 200 true), .resume 8 .go,
    .call .flush, .resume 10 .done, .resume 10 .go, .resume 10 .go,
    .resume 1 (.data [ascii "a0001 NO denied"]), .resume 1 .go, .resume 1 .go, .resume 1 .go,
    .resume 1 .go, .resume 1 .go, .resume 1 .go]

/-- The reply takes the wall away and kicks nobody. -/
theorem wall_refused_sleeps : ¬ ∀ s, imapContext.Reachable s → s.core.phase = .opened → s.Quiescent →
    AllFlushed s.core → s.core.kick.left ≠ [] → s.core.writeInFlight = true ∨
    s.core.kickPosted = true := by
  intro claimed
  obtain ⟨s, reached, here⟩ := imapContext.reachable_of_trace wallRefused
    (fun s => decide (s.core.phase = .opened ∧ s.Quiescent ∧ AllFlushed s.core ∧ s.core.kick.left ≠ [] ∧
      s.core.writeInFlight = false ∧ s.core.kickPosted = false)) (by decide)
  obtain ⟨opened, quiescent, flushed, stageable, idle, unposted⟩ := of_decide_eq_true here
  rcases claimed s reached opened quiescent flushed stageable with flying | posted
  · simp [idle] at flying
  · simp [unposted] at posted

end Bkmail
