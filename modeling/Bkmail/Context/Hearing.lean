import Bkmail.Context.Deliveries
import Bkmail.Context.Lives

namespace Bkmail

def Request.wantsUntagged (kind : UntaggedKind) : Request → Bool
  | .line c => c.wants.contains kind
  | .login _ | .append _ | .authenticate _ | .idle => false

namespace Command

theorem render_wants (tag : Tag) (request : Request) (kind : UntaggedKind) :
    (request.render tag).wantsUntagged kind = request.wantsUntagged kind := by
  cases request <;> rfl

theorem onSegmentFlushed_wants (c : Command) (kind : UntaggedKind) :
    c.onSegmentFlushed.wantsUntagged kind = c.wantsUntagged kind := by
  cases c <;> rfl

theorem onContinuation_wants (c : Command) (kind : UntaggedKind) :
    c.onContinuation.wantsUntagged kind = c.wantsUntagged kind := by
  cases c <;> rfl

theorem afterTagged_wants (c : Command) (kind : UntaggedKind) :
    c.afterTagged.wantsUntagged kind = c.wantsUntagged kind := by
  cases c <;> rfl

end Command

def Wanting (core : ContextCore) : Prop :=
  ∀ op < core.made, ∀ kind, (core.cell op).wantsUntagged kind =
    (core.cell op).request.wantsUntagged kind

theorem Wanting.of_run {guard : ContextCore → List Work → Section → Prop} {s : System}
    (run : GuardedRun guard s) :
    Wanting s.core := by
  refine run.invariant (fun core _ => Wanting core) (fun _ _ _ _ wanting => wanting)
    (fun _ made => absurd made (Nat.not_lt_zero _)) ?_
  intro s others sec o earlier consumed wanting _ runs op made kind
  rcases runs.newcomer made with old | ⟨tag, request, addr, callbackPath, rfl, -, rfl, cell, -⟩
  · rw [(runs.fixed old).request, ← wanting op old kind]
    cases (Grounded.of_run earlier).cell_step consumed runs old with
    | same wire => simp only [Operation.wantsUntagged, wire.command]
    | detach _ _ _ _ _ _ _ _ _ _ wire | stage _ _ _ _ wire =>
      simp only [Operation.wantsUntagged, wire.command]
      rfl
    | flush _ _ _ _ wire =>
      simp only [Operation.wantsUntagged, wire.command]
      exact Command.onSegmentFlushed_wants _ kind
    | «continue» _ _ _ _ _ _ _ _ wire =>
      simp only [Operation.wantsUntagged, wire.command]
      exact Command.onContinuation_wants _ kind
    | done _ _ _ _ idle _ _ _ _ _ _ shape wire =>
      simp only [Operation.wantsUntagged, wire.command, shape]
      rfl
    | tagged _ _ wire =>
      simp only [Operation.wantsUntagged, wire.command]
      exact Command.afterTagged_wants _ kind
  · rw [cell]
    exact Command.render_wants tag request kind

structure Operation.Uncancelled (before after : Operation) : Prop where
  stopped : after.stopped = before.stopped
  stopSeen : after.stopSeen = before.stopSeen
  detached : after.detached = before.detached

/-- Cells that differ at most in their progress on the wire and in the one-shot guard. -/
structure Operation.Calm (before after : Operation) : Prop extends before.Uncancelled after where
  absorbed : after.absorbed = before.absorbed

theorem Operation.Calm.refl (op : Operation) : op.Calm op := ⟨⟨rfl, rfl, rfl⟩, rfl⟩

theorem Operation.Calm.trans {a b c : Operation} (first : a.Calm b) (second : b.Calm c) : a.Calm c :=
  ⟨⟨second.stopped.trans first.stopped, second.stopSeen.trans first.stopSeen,
    second.detached.trans first.detached⟩, second.absorbed.trans first.absorbed⟩

namespace ContextCore

def Calms (s t : ContextCore) : Prop := ∀ op, (s.cell op).Calm (t.cell op)

theorem Calms.of_cell {s t : ContextCore} (same : t.cell = s.cell) : s.Calms t := fun op => by
  rw [same]
  exact .refl _

theorem Calms.trans {s t u : ContextCore} (first : s.Calms t) (second : t.Calms u) :
    s.Calms u := fun op =>
  (first op).trans (second op)

theorem modify_calms (s : ContextCore) (op : OpId) (change : Operation → Operation)
    (calm : ∀ c : Operation, c.Calm (change c)) :
    s.Calms (s.modify op change) := by
  intro i
  rw [modify_cell, Function.update_apply]
  split
  · next same => exact same ▸ calm (s.cell op)
  · exact .refl _

theorem deliverValue_calms (s : ContextCore) (op : OpId) (ec : Option ErrorCode) :
    s.Calms (s.deliverValue op ec) := by
  unfold deliverValue
  split
  · exact .of_cell rfl
  · exact modify_calms s op (fun c => { c with finished := true }) fun _ => ⟨⟨rfl, rfl, rfl⟩, rfl⟩

theorem deliverStopped_calms (s : ContextCore) (op : OpId) : s.Calms (s.deliverStopped op) := by
  unfold deliverStopped
  split
  · exact .of_cell rfl
  · exact modify_calms s op (fun c => { c with finished := true }) fun _ => ⟨⟨rfl, rfl, rfl⟩, rfl⟩

theorem onTagged_calms (s : ContextCore) (op : OpId) (r : TaggedResponse) :
    s.Calms (s.onTagged op r) := by
  have said : s.Calms (s.emit [.terminal op (.tagged r)]) := .of_cell rfl
  simp only [onTagged]
  split
  · exact said.trans (deliverStopped_calms _ op)
  · refine (said.trans (modify_calms _ op _ fun _ => ?_)).trans (deliverValue_calms _ op _)
    exact ⟨⟨rfl, rfl, rfl⟩, rfl⟩

theorem stage_calms (s : ContextCore) (op : OpId) (segment : Bytes) : s.Calms (s.stage op segment) := by
  unfold stage
  simp only
  split <;> exact modify_calms s op Operation.onSegmentStaged fun _ => ⟨⟨rfl, rfl, rfl⟩, rfl⟩

theorem drain_calms (ops : List OpId) (s : ContextCore) : s.Calms (s.drain ops).1 := by
  induction ops generalizing s with
  | nil => exact .of_cell rfl
  | cons op ops ih =>
    simp only [drain]
    split
    · exact ih s
    · split
      · split
        · exact .of_cell rfl
        · exact ih s
      · split
        · exact stage_calms s op _
        · exact (stage_calms s op _).trans (ih _)

theorem flushOne_calms (s : ContextCore) (number : Nat) (op : OpId) :
    s.Calms (s.flushOne number op) := by
  unfold flushOne
  simp only
  split <;> exact modify_calms s op Operation.onSegmentFlushed fun _ => ⟨⟨rfl, rfl, rfl⟩, rfl⟩

theorem extract_calms (s : ContextCore) (p : OpId) : s.Calms (s.extractFromQueueLocked p).1 := by
  rw [extract_eq]
  exact .of_cell rfl

theorem flushLoop_calms (number : Nat) (ops : List OpId) (s : ContextCore) :
    s.Calms (s.flushLoop number ops).1 := by
  induction ops generalizing s with
  | nil => exact .of_cell rfl
  | cons p ops ih =>
    rw [flushLoop_cons]
    split
    · exact ih s
    · next op _ =>
      simp only
      split
      · exact ((flushOne_calms s number op).trans (extract_calms _ op)).trans (ih _)
      · exact (flushOne_calms s number op).trans (ih _)

/-- Who an untagged response is for: the first in the queue that wants it, or everyone
    registered. -/
def hearer (s : ContextCore) (r : UntaggedResponse) (op : OpId) : Bool :=
  if commandScoped r.kind then s.writeQueue.find? (fun q => (s.cell q).wantsUntagged r.kind) == some op
  else (s.registry.map (·.2)).contains op

theorem modify_absorbed (s : ContextCore) (p : OpId) (r : UntaggedResponse) (op : OpId) :
    ((s.modify p (·.onUntagged r)).cell op).absorbed = (s.cell op).absorbed ++ if op = p then [r]
    else [] := by
  rw [modify_cell, Function.update_apply]
  split
  · next same => rw [same]; rfl
  · rw [List.append_nil]

theorem absorbAll_absorbed (r : UntaggedResponse) (ops : List OpId) (s : ContextCore)
    (nodup : ops.Nodup)
    (found : ∀ p ∈ ops, s.deref p = some p) (op : OpId) :
    ((ops.foldl (absorb r) s).cell op).absorbed = (s.cell op).absorbed ++ if op ∈ ops then [r]
    else [] := by
  induction ops generalizing s with
  | nil => simp
  | cons p ops ih =>
    obtain ⟨other, nodup⟩ := List.nodup_cons.mp nodup
    have later : ∀ q ∈ ops, (absorb r s p).deref q = some q := by
      intro q member
      rw [(absorb_agrees r s p).deref]
      exact found q (.tail _ member)
    rw [List.foldl_cons, ih _ nodup later, absorb, found p List.mem_cons_self, modify_absorbed]
    by_cases same : op = p
    · simp [same, other]
    · simp [same]

theorem routeUntagged_uncancelled (s : ContextCore) (r : UntaggedResponse) (op : OpId) :
    (s.cell op).Uncancelled ((s.routeUntagged r).core.cell op) := by
  have told (s : ContextCore) (p : OpId) :
      (s.cell op).Uncancelled ((s.modify p (·.onUntagged r)).cell op) := by
    rw [modify_cell, Function.update_apply]
    split
    · next same => exact same ▸ ⟨rfl, rfl, rfl⟩
    · exact ⟨rfl, rfl, rfl⟩
  have absorbed (s : ContextCore) (p : OpId) : (s.cell op).Uncancelled ((absorb r s p).cell op) := by
    unfold absorb
    split
    · exact ⟨rfl, rfl, rfl⟩
    · exact told s _
  unfold routeUntagged
  split
  · split
    · exact ⟨rfl, rfl, rfl⟩
    · exact told s _
  · generalize s.registry.map (·.2) = ops
    induction ops generalizing s with
    | nil => exact ⟨rfl, rfl, rfl⟩
    | cons p ops ih =>
      have first := absorbed s p
      have rest := ih (absorb r s p)
      exact ⟨rest.stopped.trans first.stopped, rest.stopSeen.trans first.stopSeen,
        rest.detached.trans first.detached⟩

theorem routeUntagged_absorbed {s : ContextCore} (nodup : (s.registry.map (·.2)).Nodup)
    (found : ∀ entry ∈ s.registry, s.deref entry.2 = some entry.2) (r : UntaggedResponse) (op : OpId) :
    ((s.routeUntagged r).core.cell op).absorbed = (s.cell op).absorbed ++ if s.hearer r op then [r]
    else [] := by
  unfold routeUntagged hearer
  split
  · split
    · next none => simp [none]
    · next q first =>
      rw [modify_absorbed, first]
      by_cases same : op = q
      · simp [same]
      · simp [same, Ne.symm same]
  · rw [absorbAll_absorbed r _ s nodup]
    · simp only [List.contains_iff_mem]
    · intro p member
      obtain ⟨entry, registered, rfl⟩ := List.mem_map.mp member
      exact found entry registered

theorem postKick_cell (s : ContextCore) : s.postKick.core.cell = s.cell := by
  unfold postKick
  split <;> rfl

theorem connectionLost_cell (s : ContextCore) (ec : ErrorCode) :
    (s.connectionLost ec).core.cell = s.cell := by
  unfold connectionLost
  split <;> rfl

theorem readLoop_calms (s : ContextCore) (texts : List Bytes) : s.Calms (s.readLoop texts).core := by
  cases texts with
  | nil => exact .of_cell rfl
  | cons text rest =>
    simp only [readLoop, dispatch]
    split
    · exact .of_cell rfl
    · next r _ =>
      rw [dispatchTagged_core]
      cases lookup s.registry r.tag with
      | none => exact .of_cell rfl
      | some p => exact extract_calms (s.forget r.tag p) p
    · exact .of_cell rfl
    · unfold dispatchContinuation
      split
      · exact .of_cell rfl
      · simp only
        split
        · exact .of_cell rfl
        · exact modify_calms { s with continuationTarget := none } _ Operation.onContinuation
            fun _ => ⟨⟨rfl, rfl, rfl⟩, rfl⟩

end ContextCore

def Section.cancels (s : ContextCore) : Section → Bool
  | .call (.cancel _) | .call (.requestStop _) => true
  | .work (.enqueueOperation op _) _ => (s.cell op).stopSeen
  | _ => false

def Section.routed : Section → Option UntaggedResponse
  | .work (.routeUntagged r) _ => some r
  | _ => none

def Section.heard (s : ContextCore) (op : OpId) (sec : Section) : List UntaggedResponse :=
  sec.routed.toList.filter fun r => s.hearer r op

namespace Section

variable {s : ContextCore} {sec : Section} {o : Outcome}

theorem Runs.calms (runs : sec.Runs s o) (plain : sec.cancels s = false) (quiet : sec.routed = none)
    {op : OpId} (made : op < s.made) : (s.cell op).Calm (o.core.cell op) := by
  have same (cell : o.core.cell = s.cell) : (s.cell op).Calm (o.core.cell op) :=
    ContextCore.Calms.of_cell cell op
  cases runs with
  | submit =>
    simp only [ContextCore.attach, Function.update_of_ne (Nat.ne_of_lt made)]
    exact .refl _
  | flush => exact same (ContextCore.postKick_cell _)
  | cancel | requestStop => cases plain
  | close => exact same (by unfold ContextCore.close; split <;> rfl)
  | abandon => exact same (by unfold ContextCore.abandon; split <;> rfl)
  | reading choice result =>
      exact same (by unfold ContextCore.readReceiver; split <;> [split <;> rfl; rfl])
  | writeError => exact same (ContextCore.extractAll_cell _ _)
  | stopScheduled op => exact ContextCore.deliverStopped_calms (s.emit [.terminal op .stopped]) op _
  | enqueueOperation q post =>
    refine same ?_
    have running : (s.cell q).stopSeen = false := plain
    simp only [ContextCore.enqueueOperation, running]
    split <;> rfl
  | postKick => exact same (ContextCore.postKick_cell s)
  | fail op ec => exact ContextCore.deliverValue_calms (s.emit [.terminal op (.fail ec)]) op _ _
  | onTagged op r => exact ContextCore.onTagged_calms s op r _
  | maybeFinishClose => exact same (by unfold ContextCore.maybeFinishClose; split <;> rfl)
  | connectionLost | writeLost | readLost => exact same (ContextCore.connectionLost_cell s _)
  | kick =>
    unfold ContextCore.kick
    split
    · exact .refl _
    · simp only
      split <;> exact ContextCore.drain_calms s.writeQueue s.newDrain op
  | armWrite =>
    refine same ?_
    unfold ContextCore.armWrite
    split
    · exact ContextCore.extractAll_cell _ s.unlatchWrite
    · rfl
  | writeQuiet => exact same (ContextCore.extractAll_cell _ s.unlatchWrite)
  | writeFlushed batch =>
    unfold ContextCore.writeFlushed
    split
    · exact ContextCore.flushLoop_calms batch.number batch.ops s.unlatchWrite op
    · exact ContextCore.Calms.of_cell (ContextCore.extractAll_cell _ s.unlatchWrite) op
  | armRead =>
    refine same ?_
    unfold ContextCore.armRead ContextCore.maybeFinishClose
    split <;> [split <;> rfl; rfl]
  | readLoop texts => exact ContextCore.readLoop_calms s texts op
  | routeUntagged r => cases quiet
  | rearm => exact same (by unfold ContextCore.rearm; split <;> rfl)
  | _ => exact .refl _

theorem routed_some {r : UntaggedResponse} (routes : sec.routed = some r) :
    ∃ choice, sec = .work (.routeUntagged r) choice := by
  unfold Section.routed at routes
  split at routes
  · cases routes
    exact ⟨_, rfl⟩
  · cases routes

theorem Runs.uncancelled (runs : sec.Runs s o) (plain : sec.cancels s = false) {op : OpId}
    (made : op < s.made) :
    (s.cell op).Uncancelled (o.core.cell op) := by
  cases routes : sec.routed with
  | none => exact (runs.calms plain routes made).toUncancelled
  | some r =>
    obtain ⟨choice, rfl⟩ := routed_some routes
    cases runs
    exact ContextCore.routeUntagged_uncancelled s r op

theorem Runs.absorbs (runs : sec.Runs s o) (plain : sec.cancels s = false)
    (nodup : (s.registry.map (·.2)).Nodup)
    (found : ∀ entry ∈ s.registry, s.deref entry.2 = some entry.2) {op : OpId} (made : op < s.made) :
    (o.core.cell op).absorbed = (s.cell op).absorbed ++ sec.heard s op := by
  cases routes : sec.routed with
  | none =>
    rw [(runs.calms plain routes made).absorbed]
    simp [heard, routes]
  | some r =>
    obtain ⟨choice, rfl⟩ := routed_some routes
    cases runs
    rw [ContextCore.routeUntagged_absorbed nodup found]
    by_cases hears : s.hearer r op = true <;> simp [heard, Section.routed, hears]

end Section

end Bkmail
