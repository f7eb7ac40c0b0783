import Bkmail.Context.Registry

namespace Bkmail

/-- A cell that a pointer may still be followed to: queued, or lifted out by a failed write. -/
def Stays (core : ContextCore) (pending : List Work) (op : OpId) : Prop :=
  op ∈ core.writeQueue ∨ op ∈ liftedOf pending

def Held (core : ContextCore) (pending : List Work) : Prop :=
  ∀ entry ∈ core.registry, Stays core pending entry.2

/-- No write gives up a cell outside the open phase that is still registered. -/
def Kept (core : ContextCore) (_ : List Work) (sec : Section) : Prop :=
  ∀ op ∈ sec.retiring core, op ∉ core.registry.map (·.2)

instance (core : ContextCore) (pending : List Work) (sec : Section) :
    Decidable (Kept core pending sec) :=
  inferInstanceAs (Decidable (∀ op ∈ sec.retiring core, _))

theorem Kept.of_opened {core : ContextCore} (opened : core.phase = .opened) (pending : List Work)
    (sec : Section) :
    Kept core pending sec := by
  have none : sec.retiring core = [] := by
    unfold Section.retiring
    split <;> simp [opened]
  simp [Kept, none]

namespace Stays

variable {core : ContextCore} {pending others : List Work} {sec : Section} {o : Outcome} {op : OpId}

theorem live (custody : Custody core pending) (stays : Stays core pending op) : op ∈ core.live := by
  rcases stays with queued | lifted
  · exact custody.queue_live queued
  · obtain ⟨work, pends, lifted⟩ := List.mem_flatMap.mp lifted
    refine custody.owned_live pends ?_
    cases work <;> simp_all [Work.lifted, Work.owns]

theorem permuted {after : List Work} (perm : pending.Perm after) (stays : Stays core pending op) :
    Stays core after op :=
  stays.imp id fun lifted => (perm.flatMap_right Work.lifted).subset lifted

theorem consumed (stays : Stays core pending op) (consumed : pending.Perm (sec.consumed ++ others)) :
    op ∈ core.writeQueue ∨ op ∈ liftedOf sec.consumed ∨ op ∈ liftedOf others := by
  rcases stays.permuted consumed with queued | lifted
  · exact .inl queued
  · rw [liftedOf_append, List.mem_append] at lifted
    exact .inr lifted

theorem debtor (stays : Stays core pending op) (ledger : Ledger core pending) {work : Work}
    (pends : work ∈ pending)
    (owes : op ∈ work.owes) : op ∈ work.lifted := by
  rcases stays with queued | lifted
  · exact absurd queued (ledger.not_owed pends owes)
  · obtain ⟨other, pends', lifted⟩ := List.mem_flatMap.mp lifted
    by_cases same : other = work
    · exact same ▸ lifted
    · refine absurd owes (ledger.sole_debtor pends' pends same ?_)
      cases other <;> simp_all [Work.lifted, Work.owes]

theorem running (stays : Stays core pending op) (ledger : Ledger core pending)
    (consumed : pending.Perm (sec.consumed ++ others)) : op ∉ sec.ended := by
  intro ends
  obtain ⟨work, runs, owes, unlifted⟩ : ∃ work ∈ sec.consumed, op ∈ work.owes ∧ work.lifted = [] := by
    unfold Section.ended at ends
    split at ends <;> simp_all [Section.consumed, Work.owes, Work.lifted]
  have lifted := stays.debtor ledger (Grounded.consumed_mem consumed runs) owes
  simp [unlifted] at lifted

theorem unended (stays : Stays core pending op) (ledger : Ledger core pending) :
    op ∉ core.log.flatMap Event.ends := by
  intro ended
  refine (List.nodup_append.mp ledger.nodup).2.2 op ?_ op ended rfl
  rcases stays with queued | lifted
  · exact List.mem_append_left _ queued
  · obtain ⟨work, pends, lifted⟩ := List.mem_flatMap.mp lifted
    refine List.mem_append_right _ (List.mem_flatMap.mpr ⟨work, pends, ?_⟩)
    cases work <;> simp_all [Work.lifted, Work.owes]

theorem of_queue (queued : op ∈ o.core.writeQueue) :
    Stays o.core (o.produced ++ others) op := .inl queued

theorem of_produced (lifted : op ∈ liftedOf o.produced) : Stays o.core (o.produced ++ others) op :=
  .inr (by simp [lifted])

theorem of_others (lifted : op ∈ liftedOf others) : Stays o.core (o.produced ++ others) op :=
  .inr (by simp [lifted])

end Stays

/-- The ways in which a cell goes out of reach, and what each does to the registry. -/
inductive Departs (s : ContextCore) (sec : Section) (t : ContextCore) (op : OpId) : Prop where
  | withdraw (tag : Tag) (p : OpId) : ContextCore.lookup s.registry tag = some p → s.deref p = some op →
      (s.cell op).awaitsContinuation = false → t.registry = ContextCore.erase s.registry tag →
      Departs s sec t op
  | reply (tag : Tag) (p : OpId) : ContextCore.lookup s.registry tag = some p →
      (s.cell p).addr = (s.cell op).addr → t.registry = ContextCore.erase s.registry tag →
      t.continuationTarget ≠ some op → Departs s sec t op
  | purge : t.registry = [] → t.continuationTarget = none → Departs s sec t op
  | close : (∀ entry ∈ t.registry, entry.1 ≠ (s.cell op).tag) → t.continuationTarget = none →
      Departs s sec t op
  | retire : s.phase ≠ .opened → s.abandoned = true ∨ op ∈ sec.retiring s → t.registry = s.registry →
      Departs s sec t op
  | flush : ContextCore.retires (s.cell op) = true → Departs s sec t op

namespace Section.Routes

variable {core : ContextCore} {pending others : List Work} {sec : Section} {o : Outcome} {op : OpId}

theorem entries (routes : sec.Routes core o) {entry : Tag × OpId} (member : entry ∈ o.core.registry) :
    entry ∈ core.registry ∨ ∃ op post, sec = .work (.enqueueOperation op post) .go ∧
    core.phase = .opened ∧ entry = ((core.cell op).tag, op) ∧ op ∈ o.core.writeQueue := by
  have erased : ∀ tag, o.core.registry = ContextCore.erase core.registry tag → entry ∈ core.registry :=
    fun tag registry => (ContextCore.mem_erase.mp (registry ▸ member)).1
  cases routes with
  | register op post _ opened registry queue =>
    rcases ContextCore.mem_emplace (registry ▸ member) with old | new
    · exact .inl old
    · exact .inr ⟨op, post, rfl, opened, new, by simp [queue]⟩
  | revoke _ _ _ _ registry | withdraw _ _ _ _ _ _ _ _ _ registry | detach _ _ _ _ _ _ _ _ _ registry
  | reply _ _ _ _ _ registry => exact .inl (erased _ registry)
  | purge _ _ _ registry => simp [registry] at member
  | close _ _ fewer => exact .inl (fewer.subset member)
  | idle _ _ registry | retire _ _ _ _ _ registry | lift _ _ _ registry | drop _ _ _ _ registry
  | flush _ _ _ _ _ registry | kick _ _ _ registry => exact .inl (registry ▸ member)

theorem stays (routes : sec.Routes core o) (consumed : pending.Perm (sec.consumed ++ others))
    (stays : Stays core pending op) : Stays o.core (o.produced ++ others) op ∨
    Departs core sec o.core op := by
  have here := stays.consumed consumed
  have kept : liftedOf sec.consumed = [] → (op ∈ core.writeQueue → op ∈ o.core.writeQueue ∨
      Departs core sec o.core op) → Stays o.core (o.produced ++ others) op ∨
      Departs core sec o.core op := by
    intro none queue
    rcases here with queued | lifted | lifted
    · exact (queue queued).imp .of_queue id
    · simp [none] at lifted
    · exact .inl (.of_others lifted)
  cases routes with
  | idle _ _ registry queue target lifts =>
    rcases here with queued | lifted | lifted
    · exact .inl (.of_queue (queue ▸ queued))
    · exact .inl (.of_produced (lifts ▸ lifted))
    · exact .inl (.of_others lifted)
  | register op' post _ opened registry queue =>
    exact kept rfl fun queued => .inl (by simp [queue, queued])
  | revoke op' post _ opened registry queue => exact kept rfl fun queued => .inl (queue ▸ queued)
  | withdraw c tag p op' _ opened found cell parked registry queue =>
    refine kept rfl fun queued => ?_
    by_cases same : op = op'
    · subst same
      exact .inr (.withdraw tag p found cell parked registry)
    · exact .inl (queue ▸ (List.mem_erase_of_ne same).mpr queued)
  | detach c tag p op' _ opened found cell detached registry queue =>
    exact kept rfl fun queued => .inl (queue ▸ queued)
  | reply texts tag p _ found registry queue target =>
    refine kept rfl fun queued => ?_
    rw [queue]
    unfold ContextCore.extractFromQueueLocked
    cases search : core.queueFind p with
    | none => exact .inl queued
    | some q =>
      by_cases same : op = q
      · subst same
        refine .inr (.reply tag p found (ContextCore.queueFind_some search).2 registry fun held => ?_)
        have address := (ContextCore.queueFind_some search).2
        have apart := ((target op).mp held).2
        simp [ContextCore.sameAddress, address] at apart
      · exact .inl ((List.mem_erase_of_ne same).mpr queued)
  | purge _ _ _ registry target => exact .inr (.purge registry target)
  | close _ _ fewer registry target =>
    refine kept rfl fun queued => ?_
    by_cases stays : op ∈ o.core.writeQueue
    · exact .inl stays
    · refine .inr (.close (fun entry member => ?_) target)
      exact ((registry entry member).2 op queued).resolve_left stays
  | retire _ _ batch torn given registry queue target none =>
    refine kept none fun queued => ?_
    by_cases hit : op ∈ core.hits batch.ops
    · exact .inr (.retire torn (given.imp_right fun all => by rwa [all]) registry)
    · left
      rw [queue]
      exact List.mem_filter.mpr ⟨queued, by simpa using hit⟩
  | lift _ batch ec registry queue target lifts =>
    rcases here with queued | lifted | lifted
    · by_cases hit : op ∈ core.hits batch.ops
      · exact .inl (.of_produced (lifts ▸ hit))
      · refine .inl (.of_queue ?_)
        rw [queue]
        exact List.mem_filter.mpr ⟨queued, by simpa using hit⟩
    · simp [Section.consumed, Work.lifted] at lifted
    · exact .inl (.of_others lifted)
  | drop _ _ torn given registry queue =>
    rcases here with queued | lifted | lifted
    · exact .inl (.of_queue (queue ▸ queued))
    · exact .inr (.retire torn (given.imp_right fun all => by rwa [all]) registry)
    · exact .inl (.of_others lifted)
  | flush batch _ retired opened flushed registry =>
    refine kept rfl fun queued => ?_
    rw [flushed.queue]
    cases gone : ContextCore.retires (core.cell op) with
    | true => exact .inr (.flush gone)
    | false =>
      refine .inl (List.mem_filter.mpr ⟨queued, ?_⟩)
      simp [gone]
  | kick _ opened kicked registry => exact kept rfl fun queued => .inl (kicked.queue ▸ queued)

end Section.Routes

theorem cancelWith_detaches {s t : ContextCore} (agrees : s.Agrees t)
    (same : ∀ op, (t.cell op).detached = (s.cell op).detached) (tag : Tag) (expected : Option OpId)
    (op : OpId) :
    ((t.cancelWith tag expected).core.cell op).detached = (s.cell op).detached ∨
      ∃ p, s.phase = .opened ∧ ContextCore.lookup s.registry tag = some p ∧ s.deref p = some op ∧
        (t.cancelWith tag expected).core.registry = ContextCore.erase s.registry tag := by
  unfold ContextCore.cancelWith
  split
  · exact .inl (same op)
  · rename_i opened
    rw [not_not, agrees.phase] at opened
    have cancelled := t.findAndDetachLocked_cancelled tag expected
    generalize t.findAndDetachLocked tag expected = result at cancelled
    cases cancelled with
    | refused => exact .inl (same op)
    | dangling p => exact .inl (same op)
    | withdrawn p q =>
      left
      simp only [ContextCore.unregister_cell]
      rw [ContextCore.extract_eq]
      exact same op
    | done p q idle =>
      left
      by_cases itself : op = q
      · subst itself
        simpa using same op
      · simpa [itself] using same op
    | detached p q entry cell =>
      by_cases itself : op = q
      · subst itself
        exact .inr ⟨p, opened, agrees.registry ▸ entry,
          agrees.deref p ▸ cell, by simp [agrees.registry]⟩
      · left
        simpa [itself] using same op

theorem Section.Runs.detaches {s : ContextCore} {sec : Section} {o : Outcome}
    (runs : sec.Runs s o) {op : OpId}
    (step : CellStep s sec o.core op) :
    (o.core.cell op).detached = (s.cell op).detached ∨ ∃ tag p, s.phase = .opened ∧
      ContextCore.lookup s.registry tag = some p ∧ s.deref p = some op ∧
        o.core.registry = ContextCore.erase s.registry tag := by
  cases step with
  | same wire | stage _ _ _ _ wire | flush _ _ _ _ wire | «continue» _ _ _ _ _ _ _ _ wire
  | done _ _ _ _ _ _ _ _ _ _ _ _ wire | tagged _ _ wire => exact .inl wire.detached
  | detach c tag expected p called cancels =>
    cases runs with
    | cancel tag =>
        exact (cancelWith_detaches (.refl s) (fun _ => rfl) tag none op).imp_right fun found =>
        ⟨tag, found⟩
    | requestStop q =>
      have agrees :=
        s.modify_agrees q (fun c => { c with stopSeen := true }) fun _ => ⟨rfl, rfl, rfl, rfl⟩
      have same : ∀ i, ((s.modify q fun c => { c with stopSeen := true }).cell i).detached =
          (s.cell i).detached := by
        intro i
        by_cases itself : i = q <;> simp [itself]
      exact (cancelWith_detaches agrees same _ _ op).imp_right fun found => ⟨_, found⟩
    | _ => cases called <;> simp [Call.cancels] at cancels

theorem Command.awaitsContinuation_flushed (c : Command) :
    c.onSegmentFlushed.awaitsContinuation = c.awaitsContinuation := by
  have segmented : ∀ c : Segmented, c.onSegmentFlushed.awaitsContinuation = c.awaitsContinuation := by
    intro c
    simp only [Segmented.onSegmentFlushed, Segmented.awaitsContinuation]
    split <;> rfl
  cases c with
  | line => rfl
  | login c | append c | authenticate c => exact segmented c
  | idle c =>
    simp only [onSegmentFlushed, awaitsContinuation, IdleCommand.onSegmentFlushed,
      IdleCommand.awaitsContinuation]
    split <;> simp_all

theorem Operation.awaitsContinuation_flushed (c : Operation) :
    c.onSegmentFlushed.awaitsContinuation = c.awaitsContinuation :=
  c.command.awaitsContinuation_flushed

theorem ContextCore.awaits_of_retires {c : Operation} (gone : ContextCore.retires c = true) :
    c.awaitsContinuation = false := by
  simp only [ContextCore.retires, Operation.isWritten, Bool.and_eq_true, Bool.not_eq_true'] at gone
  rw [← c.awaitsContinuation_flushed]
  exact gone.2.1.2

theorem IdleCommand.awaitsContinuation_done (c : IdleCommand) :
    c.done.awaitsContinuation = c.awaitsContinuation := by
  simp only [done, awaitsContinuation]
  split <;> simp_all [queueDone]

theorem CellStep.awaits {s t : ContextCore} {sec : Section} {op : OpId} (step : CellStep s sec t op)
    (running : op ∉ sec.ended) : (t.cell op).awaitsContinuation = (s.cell op).awaitsContinuation ∨
      ∃ texts p, sec = .work (.readLoop texts) .go ∧ s.continuationTarget = some p ∧
      s.deref p = some op ∧ history op t.log = history op s.log ++ [.continued] := by
  cases step with
  | same wire | stage _ _ _ _ wire | detach _ _ _ _ _ _ _ _ _ _ wire =>
      exact .inl wire.awaitsContinuation
  | flush _ _ _ _ wire =>
    exact .inl (wire.awaitsContinuation.trans (s.cell op).awaitsContinuation_flushed)
  | «continue» text rest _ p reads _ target found _ history =>
    exact .inr ⟨text :: rest, p, reads, target, found, history⟩
  | done _ _ _ _ idle _ _ _ _ _ _ shape wire =>
    left
    rw [wire.awaitsContinuation]
    simpa only [Operation.awaitsContinuation, shape, Command.awaitsContinuation]
      using idle.awaitsContinuation_done
  | tagged r ends => simp [ends, Section.ended] at running

namespace ContextCore

theorem readLoop_target (s : ContextCore) (texts : List Bytes) :
    (s.readLoop texts).core.continuationTarget = none ∨ s.Quiet (s.readLoop texts).core := by
  cases texts with
  | nil => exact .inr (.refl s)
  | cons text rest =>
    simp only [readLoop, dispatch]
    split
    · exact .inr (.refl s)
    · exact .inr (dispatchTagged_quiet s _ rest)
    · exact .inr (dispatchUntagged_quiet s _ rest)
    · simp only [dispatchContinuation]
      split
      · exact .inr (.refl s)
      · split <;> exact .inl rfl

end ContextCore

/-- The registry and the continuation route lead to cells that can be followed: every entry is
    for an attached cell of its tag, and in the open phase no entry has lost its cell. -/
structure Routed (core : ContextCore) (pending : List Work) : Prop where
  stamped : ∀ entry ∈ core.registry, (core.cell entry.2).tag = entry.1
  attached : ∀ entry ∈ core.registry, (core.cell entry.2).detached = false
  bound : ∀ entry ∈ core.registry, entry.2 < core.made
  keys : (core.registry.map (·.1)).Nodup
  vacated : core.abandoned = true → core.registry = []
  fresh : ∀ op post, .enqueueOperation op post ∈ pending → (core.cell op).detached = false
  held : core.phase = .opened → Held core pending
  route : ∀ p, core.continuationTarget = some p →
    core.phase = .opened ∧ (core.cell p).awaitsContinuation = true ∧ Stays core pending p

namespace Routed

variable {core : ContextCore} {pending others : List Work} {sec : Section} {o : Outcome}

theorem permuted {after : List Work} (perm : pending.Perm after) (routed : Routed core pending) :
    Routed core after :=
  { routed with
    fresh := fun op post pends => routed.fresh op post (perm.symm.subset pends)
    held := fun opened entry member => (routed.held opened entry member).permuted perm
    route := fun p target =>
      ⟨(routed.route p target).1, (routed.route p target).2.1,
        (routed.route p target).2.2.permuted perm⟩ }

theorem initial : Routed {} [.armRead] :=
  ⟨by simp, by simp, by simp, by simp, by simp, by simp, by simp [Held], by simp⟩

theorem deref_eq (custody : Custody core pending) (held : Held core pending) {tag : Tag} {p : OpId}
    (found : ContextCore.lookup core.registry tag = some p) : core.deref p = some p :=
  custody.deref_eq ((held _ (ContextCore.mem_of_lookup found)).live custody)

theorem held_step (routed : Routed core pending) (runs : sec.Runs core o)
    (consumed : pending.Perm (sec.consumed ++ others)) (grounded : Grounded core pending)
    (held : Held core pending)
    (kept : Kept core pending sec) : Held o.core (o.produced ++ others) := by
  intro entry member
  have custody := grounded.custody
  have routes := runs.routes consumed grounded
  rcases routes.entries member with old | ⟨op, post, rfl, opened, rfl, queued⟩
  · have itself := routed.stamped entry old
    have erased : ∀ tag p, ContextCore.lookup core.registry tag = some p → p = entry.2 →
        o.core.registry = ContextCore.erase core.registry tag → False := by
      rintro tag p found rfl registry
      have same := routed.stamped _ (ContextCore.mem_of_lookup found)
      exact (ContextCore.mem_erase.mp (registry ▸ member)).2 (itself.symm.trans same)
    rcases routes.stays consumed (held entry old) with stays | departs
    · exact stays
    · exfalso
      cases departs with
      | withdraw tag p found cell parked registry =>
        rw [deref_eq custody held found] at cell
        cases cell
        exact erased tag _ found rfl registry
      | reply tag p found address registry =>
        have live := (held _ (ContextCore.mem_of_lookup found)).live custody
        refine erased tag p found ?_ registry
        exact custody.distinct p live entry.2 ((held entry old).live custody) address
      | purge registry => simp [registry] at member
      | close foreign => exact foreign entry member itself.symm
      | retire torn given registry =>
        rcases given with gone | given
        · simp [routed.vacated gone] at old
        · exact kept entry.2 given (List.mem_map_of_mem old)
      | flush gone =>
        simp only [ContextCore.retires, routed.attached entry old, Bool.false_and] at gone
        cases gone
  · exact .of_queue queued

theorem unregistered (custody : Custody core pending) {op : OpId} {post : Bool}
    (pends : .enqueueOperation op post ∈ pending) : ¬ Stays core pending op := by
  rintro (queued | lifted)
  · exact custody.owned_not_queued pends (List.mem_singleton.mpr rfl) queued
  · obtain ⟨work, pends', lifted⟩ := List.mem_flatMap.mp lifted
    refine custody.sole_owner pends pends' ?_ (List.mem_singleton.mpr rfl) ?_
    · rintro rfl
      simp [Work.lifted] at lifted
    · cases work <;> simp_all [Work.lifted, Work.owns]

theorem keys_step (routes : sec.Routes core o) (keys : (core.registry.map (·.1)).Nodup) :
    (o.core.registry.map (·.1)).Nodup := by
  have erased : ∀ tag, o.core.registry = ContextCore.erase core.registry tag →
      (o.core.registry.map (·.1)).Nodup := by
    intro tag registry
    rw [registry]
    exact (List.filter_sublist.map _).nodup keys
  cases routes with
  | register op post _ opened registry =>
    rw [registry, ContextCore.emplace]
    split
    · exact keys
    · rename_i absent
      rw [List.map_append]
      refine List.nodup_append.mpr ⟨keys, List.nodup_singleton _, ?_⟩
      rintro tag member _ new rfl
      obtain ⟨entry, present, rfl⟩ := List.mem_map.mp member
      simp only [List.map_cons, List.map_nil, List.mem_singleton] at new
      exact absent (List.any_eq_true.mpr ⟨entry, present, by simp [new]⟩)
  | revoke _ _ _ _ registry | withdraw _ _ _ _ _ _ _ _ _ registry | detach _ _ _ _ _ _ _ _ _ registry
  | reply _ _ _ _ _ registry => exact erased _ registry
  | purge _ _ _ registry => simp [registry]
  | close _ _ fewer => exact (fewer.map _).nodup keys
  | idle _ _ registry | retire _ _ _ _ _ registry | lift _ _ _ registry | drop _ _ _ _ registry
  | flush _ _ _ _ _ registry | kick _ _ _ registry => exact registry ▸ keys

theorem route_step (routed : Routed core pending) (runs : sec.Runs core o)
    (consumed : pending.Perm (sec.consumed ++ others)) (grounded : Grounded core pending) (p : OpId)
    (target : o.core.continuationTarget = some p) :
    o.core.phase = .opened ∧ (o.core.cell p).awaitsContinuation = true ∧
    Stays o.core (o.produced ++ others) p := by
  have opens : core.phase = .opened → o.core.phase = .opened := fun opened =>
    (runs.controls.unroutes opened).resolve_right (by simp [target])
  have routes := runs.routes consumed grounded
  have carried : core.continuationTarget = some p → o.core.phase = .opened ∧
      (o.core.cell p).awaitsContinuation = true ∧ Stays o.core (o.produced ++ others) p := by
    intro before
    obtain ⟨opened, awaits, stays⟩ := routed.route p before
    have custody := grounded.custody
    have live := stays.live custody
    have running := stays.running grounded.ledger consumed
    refine ⟨opens opened, ?_, ?_⟩
    · rcases (grounded.cell_step consumed runs (custody.made p live)).awaits running
        with same | ⟨texts, -, rfl, -, -, grows⟩
      · exact same.trans awaits
      · cases runs
        rcases core.readLoop_target texts with none | quiet
        · simp [none] at target
        · obtain ⟨events, logged, inert⟩ := quiet.log
          rw [logged, history_append, history_inert p inert, List.append_nil] at grows
          simp at grows
    · rcases routes.stays consumed stays with stays | departs
      · exact stays
      · exfalso
        cases departs with
        | withdraw tag q found cell parked => simp [parked] at awaits
        | reply tag q found address registry other => exact other target
        | purge _ none => simp [none] at target
        | close _ none => simp [none] at target
        | retire torn => exact torn opened
        | flush gone => simp [ContextCore.awaits_of_retires gone] at awaits
  cases routes with
  | idle _ _ _ _ same =>
    rcases same with same | ⟨none, -⟩
    · exact carried (same ▸ target)
    · simp [none] at target
  | kick _ opened kicked =>
    rcases kicked.target p target with before | ⟨reached, awaits⟩
    · exact carried before
    · refine ⟨opens opened, ?_, .of_queue ?_⟩
      · simpa [kicked.cell, reached, Operation.awaitsContinuation, Operation.onSegmentStaged]
          using awaits
      · exact kicked.queue ▸ (ContextCore.reached_sublist core core.writeQueue).subset reached
  | flush batch _ retired opened flushed =>
    rcases flushed.target p target with before | ⟨hit, awaits⟩
    · exact carried before
    · refine ⟨opens opened, ?_, .of_queue ?_⟩
      · simpa [flushed.cell, hit] using awaits
      · rw [flushed.queue]
        refine List.mem_filter.mpr ⟨(ContextCore.mem_hits hit).1, ?_⟩
        cases gone : ContextCore.retires (core.cell p) with
        | true =>
          have parked := ContextCore.awaits_of_retires gone
          rw [← Operation.awaitsContinuation_flushed] at parked
          simp [parked] at awaits
        | false => simp [gone]
  | reply _ _ _ _ _ _ _ other => exact carried ((other p).mp target).1
  | purge _ _ _ _ none | close _ _ _ _ none => simp [none] at target
  | register _ _ _ _ _ _ same | revoke _ _ _ _ _ _ same | withdraw _ _ _ _ _ _ _ _ _ _ _ same
  | detach _ _ _ _ _ _ _ _ _ _ _ same | retire _ _ _ _ _ _ _ same | lift _ _ _ _ _ same
  | drop _ _ _ _ _ _ same => exact carried (same ▸ target)

theorem detaches (routed : Routed core pending) (runs : sec.Runs core o)
    (consumed : pending.Perm (sec.consumed ++ others)) (grounded : Grounded core pending)
    {op : OpId} (made : op < core.made) :
    (o.core.cell op).detached = (core.cell op).detached ∨
      Stays core pending op ∧ ((core.cell op).tag, op) ∉ o.core.registry := by
  rcases runs.detaches (grounded.cell_step consumed runs made) with same | ⟨tag, p, opened, found,
    cell, registry⟩
  · exact .inl same
  · have held := routed.held opened
    rw [deref_eq grounded.custody held found] at cell
    cases cell
    have entry := ContextCore.mem_of_lookup found
    refine .inr ⟨held _ entry, fun member => ?_⟩
    exact (ContextCore.mem_erase.mp (registry ▸ member)).2 (routed.stamped _ entry)

theorem preserved (routed : Routed core pending) (runs : sec.Runs core o)
    (consumed : pending.Perm (sec.consumed ++ others)) (grounded : Grounded core pending) :
    Routed o.core (o.produced ++ others) := by
  have custody := grounded.custody
  have routes := runs.routes consumed grounded
  have grows : core.made ≤ o.core.made := by
    rw [runs.heap.1]
    exact Nat.le_add_right _ _
  have pends : ∀ op post, sec = .work (.enqueueOperation op post) .go →
      .enqueueOperation op post ∈ pending := by
    rintro op post rfl
    exact Grounded.consumed_mem consumed (List.mem_singleton.mpr rfl)
  have made : ∀ op post, .enqueueOperation op post ∈ pending → op < core.made := fun op post pends =>
    custody.made op (custody.owned_live pends (List.mem_singleton.mpr rfl))
  have fresh : ∀ op post, .enqueueOperation op post ∈ pending → (o.core.cell op).detached = false := by
    intro op post pends
    rcases routed.detaches runs consumed grounded (made op post pends) with same | ⟨stays, -⟩
    · exact same.trans (routed.fresh op post pends)
    · exact absurd stays (unregistered custody pends)
  refine ⟨?_, ?_, ?_, keys_step routes routed.keys, ?_, ?_, ?_,
    routed.route_step runs consumed grounded⟩
  · intro entry member
    rcases routes.entries member with old | ⟨op, post, ran, -, rfl, -⟩
    · exact (runs.fixed (routed.bound entry old)).tag.trans (routed.stamped entry old)
    · exact (runs.fixed (made op post (pends op post ran))).tag
  · intro entry member
    rcases routes.entries member with old | ⟨op, post, ran, -, rfl, -⟩
    · rcases routed.detaches runs consumed grounded (routed.bound entry old) with same | ⟨-, gone⟩
      · exact same.trans (routed.attached entry old)
      · rw [routed.stamped entry old] at gone
        exact absurd member gone
    · exact fresh op post (pends op post ran)
  · intro entry member
    rcases routes.entries member with old | ⟨op, post, ran, -, rfl, -⟩
    · exact Nat.lt_of_lt_of_le (routed.bound entry old) grows
    · exact Nat.lt_of_lt_of_le (made op post (pends op post ran)) grows
  · intro gone
    rcases runs.abandons with same | ⟨rfl, -⟩
    · rw [same] at gone
      refine List.eq_nil_iff_forall_not_mem.mpr fun entry member => ?_
      rcases routes.entries member with old | ⟨_, _, _, opened, _⟩
      · simp [routed.vacated gone] at old
      · exact grounded.latched.abandoned gone opened
    · cases runs
      unfold ContextCore.abandon at gone ⊢
      split
      · rename_i closed
        rw [if_pos closed] at gone
        exact routed.vacated gone
      · rfl
  · intro op post pends
    rcases List.mem_append.mp pends with spawned | waiting
    · cases runs.spawns spawned rfl with
      | submit =>
        cases runs
        simp [ContextCore.attach, Operation.attach]
    · exact fresh op post (consumed.symm.subset (List.mem_append_right _ waiting))
  · intro opened
    have before := runs.controls.opens opened
    exact routed.held_step runs consumed grounded (routed.held before)
      (Kept.of_opened before pending sec)

theorem of_run {guard : ContextCore → List Work → Section → Prop} {s : System}
    (run : GuardedRun guard s) :
    Routed s.core s.pending :=
  run.invariant Routed (fun _ _ _ perm routed => routed.permuted perm) initial
    fun _ _ _ _ earlier consumed routed _ runs => routed.preserved runs consumed (.of_run earlier)

end Routed

end Bkmail
