import Bkmail.Context.Wire

namespace Bkmail

inductive CellEvent where
  | staged (batch : Nat) (segment : Bytes)
  | flushed (batch : Nat)
  | continued
  deriving DecidableEq, Repr

def Event.about (op : OpId) : Event → Option CellEvent
  | .staged batch cell segment => if cell = op then some (.staged batch segment) else none
  | .segmentFlushed batch cell => if cell = op then some (.flushed batch) else none
  | .continued cell => if cell = op then some .continued else none
  | _ => none

def history (op : OpId) (log : List Event) : List CellEvent := log.filterMap (Event.about op)

@[simp] theorem history_append (op : OpId) (before after : List Event) :
    history op (before ++ after) = history op before ++ history op after := by
  simp [history]

theorem history_nil {op : OpId} {events : List Event} (none : ∀ event ∈ events, event.about op = none) :
    history op events = [] :=
  List.filterMap_eq_nil_iff.mpr none

theorem history_inert (op : OpId) {events : List Event}
    (inert : ∀ event ∈ events, event.ofCell = false) :
    history op events = [] :=
  history_nil fun event member => by
    have plain := inert event member
    cases event <;> simp_all [Event.ofCell, Event.about]

theorem history_map (op : OpId) (entry : OpId → Event) (event : CellEvent) {ops : List OpId}
    (nodup : ops.Nodup)
    (own : (entry op).about op = some event) (foreign : ∀ q, q ≠ op → (entry q).about op = none) :
    history op (ops.map entry) = if op ∈ ops then [event] else [] := by
  induction ops with
  | nil => rfl
  | cons q ops ih =>
    obtain ⟨fresh, nodup⟩ := List.nodup_cons.mp nodup
    have rest := ih nodup
    by_cases same : q = op
    · subst same
      rw [if_neg fresh] at rest
      simp only [List.map_cons, history, List.filterMap_cons, own, List.mem_cons, true_or, if_true]
      exact congrArg _ rest
    · simp only [List.map_cons, history, List.filterMap_cons, foreign q same, List.mem_cons]
      simpa only [history, Ne.symm same, false_or] using rest

/-- What one section does to a cell that was made before it, and to the history of the cell. -/
inductive CellStep (s : ContextCore) (sec : Section) (t : ContextCore) (op : OpId) : Prop where
  | same : (s.cell op).SameWire (t.cell op) → history op t.log = history op s.log → CellStep s sec t op
  | stage : sec = .work .kick .go → s.phase = .opened → s.writeInFlight = false →
      op ∈ s.reached s.writeQueue → (s.cell op).onSegmentStaged.SameWire (t.cell op) →
      history op t.log = history op s.log ++ [.staged (s.drains + 1) (s.cell op).nextSegment] →
      CellStep s sec t op
  | flush (batch : Batch) : sec = .work (.writeFlushed batch) .go → s.phase = .opened →
      op ∈ s.hits batch.ops → (s.cell op).onSegmentFlushed.SameWire (t.cell op) →
      history op t.log = history op s.log ++ [.flushed batch.number] → CellStep s sec t op
  | continue (text : Bytes) (rest : List Bytes) (r : ContinuationRequest) (p : OpId) :
      sec = .work (.readLoop (text :: rest)) .go → Parser.parse text = some (.continuation r) →
      s.continuationTarget = some p → s.deref p = some op →
      (s.cell op).onContinuation.SameWire (t.cell op) →
      history op t.log = history op s.log ++ [.continued] → CellStep s sec t op
  | done (c : Call) (tag : Tag) (expected : Option OpId) (p : OpId) (idle : IdleCommand) :
      sec = .call c → c.cancels s = some (tag, expected) → s.phase = .opened →
      ContextCore.lookup s.registry tag = some p → expected.all (s.sameAddress p) = true →
      s.deref p = some op → (s.cell op).command = .idle idle →
      Operation.SameWire { s.cell op with command := .idle idle.done } (t.cell op) →
      history op t.log = history op s.log → CellStep s sec t op
  | detach (c : Call) (tag : Tag) (expected : Option OpId) (p : OpId) : sec = .call c →
      c.cancels s = some (tag, expected) → s.phase = .opened →
      ContextCore.lookup s.registry tag = some p → s.deref p = some op → (s.cell op).isWritten = false →
      (s.cell op).markDetached.SameWire (t.cell op) → history op t.log = history op s.log →
      CellStep s sec t op
  | tagged (r : TaggedResponse) : sec = .work (.onTagged op r) .go →
      Operation.SameWire { s.cell op with command := (s.cell op).command.afterTagged } (t.cell op) →
      history op t.log = history op s.log → CellStep s sec t op

theorem CellStep.quiet {s t u : ContextCore} {sec : Section} {op : OpId} (cell : CellStep s sec t op)
    (quiet : t.Quiet u) : CellStep s sec u op := by
  have wire := quiet.cells op
  have log : history op u.log = history op t.log := by
    obtain ⟨events, logged, inert⟩ := quiet.log
    rw [logged, history_append, history_inert op inert, List.append_nil]
  cases cell with
  | same kept history => exact .same (kept.trans wire) (log.trans history)
  | stage kick opened idle reached staged history =>
    exact .stage kick opened idle reached (staged.trans wire) (log.trans history)
  | flush batch flush opened hit flushed history =>
    exact .flush batch flush opened hit (flushed.trans wire) (log.trans history)
  | «continue» text rest r p reads parsed target found continued history =>
    exact .continue text rest r p reads parsed target found (continued.trans wire) (log.trans history)
  | done c tag expected p idle call cancels opened found itself cell shape done history =>
    exact .done c tag expected p idle call cancels opened found itself cell shape (done.trans wire)
      (log.trans history)
  | detach c tag expected p call cancels opened found cell unwritten detached history =>
    exact .detach c tag expected p call cancels opened found cell unwritten (detached.trans wire)
      (log.trans history)
  | tagged r ends tagged history => exact .tagged r ends (tagged.trans wire) (log.trans history)

namespace Section

theorem Acts.cell_step {s t : ContextCore} {sec : Section} (acts : sec.Acts s t)
    (nodup : s.writeQueue.Nodup)
    (apart : ∀ batch ∈ batchesOf sec.consumed, s.Apart batch.ops) {op : OpId} (made : op < s.made) :
    CellStep s sec t op := by
  have other : ∀ q change, op ≠ q → (s.cell op).SameWire ((s.modify q change).cell op) := by
    intro q change different
    simpa [different] using Operation.SameWire.refl (s.cell op)
  cases acts with
  | nothing | allocateTag | dispose => exact .same (.refl _) rfl
  | attach =>
    refine .same ?_ rfl
    simpa [ContextCore.attach, Function.update_of_ne (Nat.ne_of_lt made)]
      using Operation.SameWire.refl (s.cell op)
  | enqueue | flushCall | terminate => exact .same (.refl _) (by simp [history, Event.about])
  | requestDone c tag expected p q idle cancels opened found itself cell shape =>
    by_cases same : op = q
    · subst same
      refine .done c tag expected p idle rfl cancels opened found itself cell shape ?_ rfl
      simpa using Operation.SameWire.refl _
    · exact .same (other q _ same) rfl
  | detach c tag expected p q cancels opened found cell unwritten =>
    by_cases same : op = q
    · subst same
      refine .detach c tag expected p rfl cancels opened found cell unwritten ?_ rfl
      simpa using Operation.SameWire.refl _
    · exact .same (other q _ same) rfl
  | onTagged q r =>
    by_cases same : op = q
    · subst same
      refine .tagged r rfl ?_ (by simp [history, Event.about])
      simpa using Operation.SameWire.refl _
    · refine .same ?_ (by simp [history, Event.about])
      simpa [same] using Operation.SameWire.refl (s.cell op)
  | kick opened idle =>
    have kicked := s.kicked nodup
    have log := history_map op (fun q => .staged (s.drains + 1) q (s.cell q).nextSegment)
      (.staged (s.drains + 1) (s.cell op).nextSegment)
        ((ContextCore.reached_sublist s s.writeQueue).nodup nodup)
      (if_pos rfl) fun q different => if_neg different
    by_cases reached : op ∈ s.reached s.writeQueue
    · refine .stage rfl opened idle reached ?_ ?_
      · simpa [kicked.cell, reached] using Operation.SameWire.refl _
      · rw [kicked.log, history_append, log, if_pos reached]
    · refine .same ?_ ?_
      · simpa [kicked.cell, reached] using Operation.SameWire.refl _
      · rw [kicked.log, history_append, log, if_neg reached, List.append_nil]
  | flush batch opened =>
    have apart : s.unlatchWrite.Apart batch.ops := apart batch (by simp [consumed, Work.batch?])
    have flushed := ContextCore.flushLoop_flushed batch.number batch.ops s.unlatchWrite nodup apart
    have log := history_map op (.segmentFlushed batch.number ·) (.flushed batch.number)
      (ContextCore.nodup_hits apart) (if_pos rfl) fun q different => if_neg different
    by_cases hit : op ∈ s.unlatchWrite.hits batch.ops
    · refine .flush batch rfl opened hit ?_ ?_
      · simpa [flushed.cell, hit] using Operation.SameWire.refl _
      · rw [flushed.log, history_append, log, if_pos hit, ContextCore.unlatchWrite_log]
    · refine .same ?_ ?_
      · simpa [flushed.cell, hit] using Operation.SameWire.refl _
      · rw [flushed.log, history_append, log, if_neg hit, List.append_nil, ContextCore.unlatchWrite_log]
  | continuation text rest r p q parsed target cell =>
    by_cases same : op = q
    · subst same
      refine .continue text rest r p rfl parsed target cell ?_ (by simp [history, Event.about])
      simpa using Operation.SameWire.refl _
    · refine .same (other q _ same) ?_
      simp [history, Event.about, Ne.symm same]

theorem Runs.cell_step {s : ContextCore} {sec : Section} {o : Outcome} (runs : sec.Runs s o)
    (nodup : s.writeQueue.Nodup)
    (apart : ∀ batch ∈ batchesOf sec.consumed, s.Apart batch.ops) {op : OpId}
    (made : op < s.made) : CellStep s sec o.core op := by
  obtain ⟨acted, acts, quiet⟩ := runs.acts
  exact (acts.cell_step nodup apart made).quiet quiet

end Section

/-- The invariants that hold in every run, whatever its steps, and that everything else rests on. -/
structure Grounded (core : ContextCore) (pending : List Work) : Prop where
  custody : Custody core pending
  latched : Latched core pending
  ledger : Ledger core pending
  batched : Batched core pending
  enlisted : Enlisted core pending

namespace Grounded

variable {core : ContextCore} {pending : List Work}

theorem of_run {guard : ContextCore → List Work → Section → Prop} {s : System}
    (run : GuardedRun guard s) :
    Grounded s.core s.pending :=
  ⟨.of_run run, .of_run run, .of_run run, .of_run run, .of_run run⟩

theorem queue_made (grounded : Grounded core pending) {op : OpId} (queued : op ∈ core.writeQueue) :
    op < core.made :=
  grounded.custody.made op (grounded.custody.queue_live queued)

variable {sec : Section} {others : List Work} {o : Outcome}

theorem consumed_mem {work : Work} (consumed : pending.Perm (sec.consumed ++ others))
    (member : work ∈ sec.consumed) :
    work ∈ pending :=
  consumed.symm.subset (List.mem_append_left _ member)

theorem consumed_batch {batch : Batch} (consumed : pending.Perm (sec.consumed ++ others))
    (member : batch ∈ batchesOf sec.consumed) : batch ∈ batchesOf pending := by
  obtain ⟨work, runs, token⟩ := List.mem_filterMap.mp member
  exact List.mem_filterMap.mpr ⟨work, consumed_mem consumed runs, token⟩

theorem cell_step (grounded : Grounded core pending) (consumed : pending.Perm (sec.consumed ++ others))
    (runs : sec.Runs core o) {op : OpId} (made : op < core.made) : CellStep core sec o.core op :=
  runs.cell_step grounded.custody.nodup_queue
    (fun batch token => grounded.batched.apart batch (consumed_batch consumed token)) made

end Grounded

end Bkmail
