import Bkmail.Context.Sections

namespace Bkmail

structure Operation.Fixed (before after : Operation) : Prop where
  addr : after.addr = before.addr
  tag : after.tag = before.tag
  request : after.request = before.request
  callbackPath : after.callbackPath = before.callbackPath

theorem Operation.Fixed.refl (op : Operation) : op.Fixed op := ⟨rfl, rfl, rfl, rfl⟩

theorem Operation.Fixed.trans {a b c : Operation} (first : a.Fixed b) (second : b.Fixed c) :
    a.Fixed c :=
  ⟨second.addr.trans first.addr, second.tag.trans first.tag, second.request.trans first.request,
    second.callbackPath.trans first.callbackPath⟩

def Event.transport : Event → Bool
  | .prepared | .readArmed | .writeArmed _ | .descriptorClosed => true
  | _ => false

namespace ContextCore

def transportLog (s : ContextCore) : List Event := s.log.filter Event.transport

theorem transportLog_emit (s : ContextCore) (events : List Event) :
    (s.emit events).transportLog = s.transportLog ++ events.filter Event.transport := by
  simp [transportLog]

/-- Two cores that differ at most in the cells, the queue, the staging buffer, the continuation
    route and the log of the cells: what the loops of the pumps leave alone. -/
structure Agrees (s t : ContextCore) : Prop where
  phase : t.phase = s.phase
  abandoned : t.abandoned = s.abandoned
  tagCounter : t.tagCounter = s.tagCounter
  registry : t.registry = s.registry
  writeInFlight : t.writeInFlight = s.writeInFlight
  kickPosted : t.kickPosted = s.kickPosted
  readRunning : t.readRunning = s.readRunning
  suspendRead : t.suspendRead = s.suspendRead
  byeReceived : t.byeReceived = s.byeReceived
  made : t.made = s.made
  live : t.live = s.live
  tags : t.tags = s.tags
  drains : t.drains = s.drains
  cells : ∀ op, (s.cell op).Fixed (t.cell op)
  transport : t.transportLog = s.transportLog

theorem Agrees.refl (s : ContextCore) : s.Agrees s :=
  ⟨rfl, rfl, rfl, rfl, rfl, rfl, rfl, rfl, rfl, rfl, rfl, rfl, rfl, fun _ => .refl _, rfl⟩

theorem Agrees.trans {s t u : ContextCore} (first : s.Agrees t) (second : t.Agrees u) : s.Agrees u where
  phase := second.phase.trans first.phase
  abandoned := second.abandoned.trans first.abandoned
  tagCounter := second.tagCounter.trans first.tagCounter
  registry := second.registry.trans first.registry
  writeInFlight := second.writeInFlight.trans first.writeInFlight
  kickPosted := second.kickPosted.trans first.kickPosted
  readRunning := second.readRunning.trans first.readRunning
  suspendRead := second.suspendRead.trans first.suspendRead
  byeReceived := second.byeReceived.trans first.byeReceived
  made := second.made.trans first.made
  live := second.live.trans first.live
  tags := second.tags.trans first.tags
  drains := second.drains.trans first.drains
  cells op := (first.cells op).trans (second.cells op)
  transport := second.transport.trans first.transport

theorem emit_agrees (s : ContextCore) (events : List Event)
    (inert : events.filter Event.transport = []) :
    s.Agrees (s.emit events) := by
  refine ⟨rfl, rfl, rfl, rfl, rfl, rfl, rfl, rfl, rfl, rfl, rfl, rfl, rfl, fun _ => .refl _, ?_⟩
  rw [transportLog_emit, inert, List.append_nil]

theorem modify_agrees (s : ContextCore) (op : OpId) (change : Operation → Operation)
    (fixed : ∀ c : Operation, c.Fixed (change c)) : s.Agrees (s.modify op change) := by
  refine ⟨rfl, rfl, rfl, rfl, rfl, rfl, rfl, rfl, rfl, rfl, rfl, rfl, rfl, fun i => ?_, rfl⟩
  by_cases same : i = op
  · subst same
    simpa [modify] using fixed (s.cell i)
  · simpa [modify, same] using Operation.Fixed.refl (s.cell i)

theorem Agrees.sameAddress {s t : ContextCore} (agrees : s.Agrees t) (p q : OpId) :
    t.sameAddress p q = s.sameAddress p q := by
  simp only [ContextCore.sameAddress, (agrees.cells p).addr, (agrees.cells q).addr]

theorem deliverValue_agrees (s : ContextCore) (op : OpId) (ec : Option ErrorCode) :
    s.Agrees (s.deliverValue op ec) := by
  unfold deliverValue
  split
  · exact .refl s
  · exact (modify_agrees s op (fun c => { c with finished := true }) fun _ =>
      ⟨rfl, rfl, rfl, rfl⟩).trans
      (emit_agrees _ _ rfl)

theorem deliverStopped_agrees (s : ContextCore) (op : OpId) : s.Agrees (s.deliverStopped op) := by
  unfold deliverStopped
  split
  · exact .refl s
  · refine (modify_agrees s op (fun c => { c with finished := true }) fun _ =>
      ⟨rfl, rfl, rfl, rfl⟩).trans
      (emit_agrees _ _ ?_)
    split <;> rfl

theorem fail_agrees (s : ContextCore) (op : OpId) (ec : ErrorCode) : s.Agrees (s.fail op ec) :=
  (emit_agrees s _ rfl).trans (deliverValue_agrees _ _ _)

theorem completeStopped_agrees (s : ContextCore) (op : OpId) : s.Agrees (s.completeStopped op) :=
  (emit_agrees s _ rfl).trans (deliverStopped_agrees _ _)

theorem onTagged_agrees (s : ContextCore) (op : OpId) (r : TaggedResponse) :
    s.Agrees (s.onTagged op r) := by
  simp only [onTagged]
  split
  · exact (emit_agrees s _ rfl).trans (deliverStopped_agrees _ _)
  · refine ((emit_agrees s [.terminal op (.tagged r)] rfl).trans ?_).trans (deliverValue_agrees _ _ _)
    exact modify_agrees _ op _ fun _ => ⟨rfl, rfl, rfl, rfl⟩

/-! The deliveries touch neither the queue nor the continuation route. -/

@[simp] theorem deliverValue_queue (s : ContextCore) (op : OpId) (ec : Option ErrorCode) :
    (s.deliverValue op ec).writeQueue = s.writeQueue ∧
      (s.deliverValue op ec).continuationTarget = s.continuationTarget := by
  unfold deliverValue
  split <;> exact ⟨rfl, rfl⟩

@[simp] theorem deliverStopped_queue (s : ContextCore) (op : OpId) :
    (s.deliverStopped op).writeQueue = s.writeQueue ∧
      (s.deliverStopped op).continuationTarget = s.continuationTarget := by
  unfold deliverStopped
  split <;> exact ⟨rfl, rfl⟩

@[simp] theorem fail_queue (s : ContextCore) (op : OpId) (ec : ErrorCode) :
    (s.fail op ec).writeQueue = s.writeQueue ∧ (s.fail op ec).continuationTarget =
    s.continuationTarget := by
  simp [fail]

@[simp] theorem completeStopped_queue (s : ContextCore) (op : OpId) :
    (s.completeStopped op).writeQueue = s.writeQueue ∧
      (s.completeStopped op).continuationTarget = s.continuationTarget := by
  simp [completeStopped]

@[simp] theorem onTagged_queue (s : ContextCore) (op : OpId) (r : TaggedResponse) :
    (s.onTagged op r).writeQueue = s.writeQueue ∧ (s.onTagged op r).continuationTarget =
    s.continuationTarget := by
  unfold onTagged
  simp only
  split <;> simp

@[simp] theorem maybeFinishClose_queue (s : ContextCore) :
    s.maybeFinishClose.writeQueue = s.writeQueue ∧ s.maybeFinishClose.registry = s.registry ∧
      s.maybeFinishClose.continuationTarget = s.continuationTarget := by
  unfold maybeFinishClose
  split <;> exact ⟨rfl, rfl, rfl⟩

theorem absorb_agrees (r : UntaggedResponse) (s : ContextCore) (p : OpId) :
    s.Agrees (absorb r s p) := by
  unfold absorb
  split
  · exact emit_agrees s _ rfl
  · exact modify_agrees s _ _ fun _ => ⟨rfl, rfl, rfl, rfl⟩

theorem absorbAll_agrees (r : UntaggedResponse) (ops : List OpId) (s : ContextCore) :
    s.Agrees (ops.foldl (absorb r) s) := by
  induction ops generalizing s with
  | nil => exact .refl s
  | cons p ops ih => exact (absorb_agrees r s p).trans (ih _)

@[simp] theorem absorbAll_queue (r : UntaggedResponse) (ops : List OpId) (s : ContextCore) :
    (ops.foldl (absorb r) s).writeQueue = s.writeQueue ∧
      (ops.foldl (absorb r) s).continuationTarget = s.continuationTarget := by
  induction ops generalizing s with
  | nil => exact ⟨rfl, rfl⟩
  | cons p ops ih =>
    rw [List.foldl_cons, (ih _).1, (ih _).2]
    unfold absorb
    split <;> exact ⟨rfl, rfl⟩

theorem routeUntagged_agrees (s : ContextCore) (r : UntaggedResponse) :
    s.Agrees (s.routeUntagged r).core := by
  unfold routeUntagged
  split
  · split
    · exact .refl s
    · exact modify_agrees s _ (·.onUntagged r) fun _ => ⟨rfl, rfl, rfl, rfl⟩
  · exact absorbAll_agrees r _ s

@[simp] theorem routeUntagged_queue (s : ContextCore) (r : UntaggedResponse) :
    (s.routeUntagged r).core.writeQueue = s.writeQueue ∧
      (s.routeUntagged r).core.continuationTarget = s.continuationTarget := by
  unfold routeUntagged
  split
  · split <;> exact ⟨rfl, rfl⟩
  · exact absorbAll_queue r _ s

@[simp] theorem routeUntagged_produced (s : ContextCore) (r : UntaggedResponse) :
    (s.routeUntagged r).produced = [] := by
  unfold routeUntagged
  split
  · split <;> rfl
  · rfl

theorem stage_agrees (s : ContextCore) (op : OpId) (segment : Bytes) :
    s.Agrees (s.stage op segment) := by
  have staged := (modify_agrees s op Operation.onSegmentStaged fun _ => ⟨rfl, rfl, rfl, rfl⟩).trans
    (emit_agrees _ [.staged s.drains op segment] rfl)
  unfold stage
  simp only
  split <;> exact ⟨rfl, rfl, rfl, rfl, rfl, rfl, rfl, rfl, rfl, rfl, rfl, rfl, rfl, staged.cells,
    staged.transport⟩

theorem stage_queue (s : ContextCore) (op : OpId) (segment : Bytes) :
    (s.stage op segment).writeQueue = s.writeQueue := by
  unfold stage
  simp only
  split <;> rfl

theorem drain_agrees (ops : List OpId) (s : ContextCore) : s.Agrees (s.drain ops).1 := by
  induction ops generalizing s with
  | nil => exact .refl s
  | cons op ops ih =>
    simp only [drain]
    split
    · exact ih s
    · split
      · split
        · exact .refl s
        · exact ih s
      · split
        · exact stage_agrees s op _
        · exact (stage_agrees s op _).trans (ih _)

theorem drain_queue (ops : List OpId) (s : ContextCore) :
    (s.drain ops).1.writeQueue = s.writeQueue := by
  induction ops generalizing s with
  | nil => rfl
  | cons op ops ih =>
    simp only [drain]
    split
    · exact ih s
    · split
      · split
        · rfl
        · exact ih s
      · split
        · exact stage_queue s op _
        · exact (ih _).trans (stage_queue s op _)

/-! Extraction changes nothing but the queue. -/

theorem extract_eq (s : ContextCore) (p : OpId) :
    (s.extractFromQueueLocked p).1 =
    { s with writeQueue := (s.extractFromQueueLocked p).1.writeQueue } := by
  unfold extractFromQueueLocked
  split <;> rfl

theorem dispatchTagged_core (s : ContextCore) (r : TaggedResponse) (rest : List Bytes) :
    (s.dispatchTagged r rest).core =
      (lookup s.registry r.tag).elim s fun p => ((s.forget r.tag p).extractFromQueueLocked p).1 := by
  unfold dispatchTagged
  cases lookup s.registry r.tag with
  | none => rfl
  | some p =>
    simp only [Option.elim_some]
    split <;> simp_all

theorem extract_perm (s : ContextCore) (p : OpId) :
    s.writeQueue.Perm ((s.extractFromQueueLocked p).2.toList ++
    (s.extractFromQueueLocked p).1.writeQueue) := by
  unfold extractFromQueueLocked
  split
  · simp
  · rename_i op found
    simpa using List.perm_cons_erase (List.mem_of_find?_eq_some found)

theorem extract_sublist (s : ContextCore) (p : OpId) :
    (s.extractFromQueueLocked p).1.writeQueue.Sublist s.writeQueue := by
  unfold extractFromQueueLocked
  split
  · exact List.Sublist.refl _
  · exact List.erase_sublist

theorem extractAll_eq (ops : List OpId) (s : ContextCore) :
    (s.extractAll ops).1 = { s with writeQueue := (s.extractAll ops).1.writeQueue } := by
  induction ops generalizing s with
  | nil => rfl
  | cons p ops ih =>
    simp only [extractAll]
    rw [ih, extract_eq]

@[simp] theorem extractAll_cell (ops : List OpId) (s : ContextCore) :
    (s.extractAll ops).1.cell = s.cell := by
  rw [extractAll_eq]

theorem extractAll_perm (ops : List OpId) (s : ContextCore) :
    s.writeQueue.Perm ((s.extractAll ops).2 ++ (s.extractAll ops).1.writeQueue) := by
  induction ops generalizing s with
  | nil => exact .refl _
  | cons p ops ih =>
    simp only [extractAll]
    rw [List.append_assoc]
    exact (extract_perm s p).trans ((ih _).append_left _)

theorem extractAll_sublist (ops : List OpId) (s : ContextCore) :
    (s.extractAll ops).1.writeQueue.Sublist s.writeQueue := by
  induction ops generalizing s with
  | nil => exact List.Sublist.refl _
  | cons p ops ih =>
    simp only [extractAll]
    exact (ih _).trans (extract_sublist s p)

def flushOne (s : ContextCore) (number : Nat) (op : OpId) : ContextCore :=
  let s := (s.modify op Operation.onSegmentFlushed).emit [.segmentFlushed number op]
  if (s.cell op).awaitsContinuation then { s with continuationTarget := some op } else s

theorem flushLoop_cons (s : ContextCore) (number : Nat) (p : OpId) (rest : List OpId) :
    s.flushLoop number (p :: rest) =
      match s.queueFind p with
      | none => s.flushLoop number rest
      | some op =>
        let t := s.flushOne number op
        if (t.cell op).detached && (t.cell op).isWritten then
          let u := t.extractFromQueueLocked op
          let v := u.1.flushLoop number rest
          (v.1, u.2.toList ++ v.2)
        else t.flushLoop number rest := rfl

theorem flushOne_agrees (s : ContextCore) (number : Nat) (op : OpId) :
    s.Agrees (s.flushOne number op) := by
  have flushed := (modify_agrees s op Operation.onSegmentFlushed fun _ => ⟨rfl, rfl, rfl, rfl⟩).trans
    (emit_agrees _ [.segmentFlushed number op] rfl)
  unfold flushOne
  simp only
  split <;> exact ⟨rfl, rfl, rfl, rfl, rfl, rfl, rfl, rfl, rfl, rfl, rfl, rfl, rfl, flushed.cells,
    flushed.transport⟩

theorem flushOne_queue (s : ContextCore) (number : Nat) (op : OpId) :
    (s.flushOne number op).writeQueue = s.writeQueue := by
  unfold flushOne
  simp only
  split <;> rfl

theorem extract_agrees (s : ContextCore) (p : OpId) : s.Agrees (s.extractFromQueueLocked p).1 := by
  rw [extract_eq]
  exact ⟨rfl, rfl, rfl, rfl, rfl, rfl, rfl, rfl, rfl, rfl, rfl, rfl, rfl, fun _ => .refl _, rfl⟩

theorem extractAll_agrees (ops : List OpId) (s : ContextCore) : s.Agrees (s.extractAll ops).1 := by
  rw [extractAll_eq]
  exact ⟨rfl, rfl, rfl, rfl, rfl, rfl, rfl, rfl, rfl, rfl, rfl, rfl, rfl, fun _ => .refl _, rfl⟩

theorem flushLoop_agrees (number : Nat) (ops : List OpId) (s : ContextCore) :
    s.Agrees (s.flushLoop number ops).1 := by
  induction ops generalizing s with
  | nil => exact .refl s
  | cons p ops ih =>
    rw [flushLoop_cons]
    split
    · exact ih s
    · rename_i op found
      simp only
      split
      · exact ((flushOne_agrees s number op).trans (extract_agrees _ op)).trans (ih _)
      · exact (flushOne_agrees s number op).trans (ih _)

theorem flushLoop_staging (number : Nat) (ops : List OpId) (s : ContextCore) :
    (s.flushLoop number ops).1.writeStaging = s.writeStaging := by
  have turn : ∀ (s : ContextCore) op, (s.flushOne number op).writeStaging = s.writeStaging := by
    intro s op
    unfold flushOne
    simp only
    split <;> rfl
  induction ops generalizing s with
  | nil => rfl
  | cons p ops ih =>
    rw [flushLoop_cons]
    split
    · exact ih s
    · rename_i op found
      simp only
      split
      · rw [ih, extract_eq]
        exact turn s op
      · rw [ih]
        exact turn s op

theorem flushLoop_perm (number : Nat) (ops : List OpId) (s : ContextCore) :
    s.writeQueue.Perm ((s.flushLoop number ops).2 ++ (s.flushLoop number ops).1.writeQueue) := by
  induction ops generalizing s with
  | nil => exact .refl _
  | cons p ops ih =>
    rw [flushLoop_cons]
    split
    · exact ih s
    · rename_i op found
      simp only
      split
      · rw [List.append_assoc, ← flushOne_queue s number op]
        exact (extract_perm _ op).trans ((ih _).append_left _)
      · rw [← flushOne_queue s number op]
        exact ih _

theorem flushLoop_sublist (number : Nat) (ops : List OpId) (s : ContextCore) :
    (s.flushLoop number ops).1.writeQueue.Sublist s.writeQueue := by
  induction ops generalizing s with
  | nil => exact .refl _
  | cons p ops ih =>
    rw [flushLoop_cons]
    split
    · exact ih s
    · rename_i op found
      have queue := flushOne_queue s number op
      simp only
      split
      · exact queue ▸ (ih _).trans (extract_sublist _ op)
      · exact queue ▸ ih _

theorem takeCells_perm (s : ContextCore) (pred : Operation → Bool) :
    s.writeQueue.Perm ((s.takeCellsLocked pred).2 ++ (s.takeCellsLocked pred).1.writeQueue) :=
  (List.filter_append_perm _ _).symm

end ContextCore

end Bkmail
