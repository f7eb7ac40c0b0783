import Bkmail.Context.Acts

namespace Bkmail

/-- The cells that a pending section owns: the queue has given them up, or has not got them yet. -/
def Work.owns : Work → List OpId
  | .stopScheduled op | .enqueueOperation op _ | .postCompleteStopped op => [op]
  | .dispose ops => ops
  | .writeFailed _ retired | .writeLost _ retired => retired
  | _ => []

namespace ContextCore

theorem owns_fails (ops : List OpId) (ec : ErrorCode) :
    (ops.map (Work.fail · ec)).flatMap Work.owns = [] := by
  simp [List.flatMap_map, Work.owns]

theorem owns_stops (ops : List OpId) : (ops.map Work.postCompleteStopped).flatMap Work.owns = ops := by
  simp [List.flatMap_map, Work.owns]

theorem owns_retire (abandoned : Bool) (retired : List OpId) :
    (retire abandoned retired).flatMap Work.owns = retired := by
  cases abandoned <;> simp [retire, owns_fails, Work.owns]

theorem extractAll_custody (s : ContextCore) (ops : List OpId) :
    s.writeQueue.Perm ((s.unlatchWrite.extractAll ops).1.writeQueue ++
    (s.unlatchWrite.extractAll ops).2) :=
  (extractAll_perm ops s.unlatchWrite).trans List.perm_append_comm

@[simp] theorem connectionLost_armed (s : ContextCore) (ec : ErrorCode) :
    (s.connectionLost ec).armed = [] := by
  unfold connectionLost
  split <;> rfl

theorem connectionLost_custody (s : ContextCore) (ec : ErrorCode) :
    s.writeQueue.Perm ((s.connectionLost ec).core.writeQueue ++
    (s.connectionLost ec).produced.flatMap Work.owns) := by
  unfold connectionLost
  split
  · simp [Outcome.produced]
  · have taken := takeCells_perm s fun c => !c.isStaged
    simpa [Outcome.produced, owns_fails, Work.owns] using taken.trans List.perm_append_comm

theorem cancelWith_custody (s : ContextCore) (tag : Tag) (expected : Option OpId) :
    s.writeQueue.Perm ((s.cancelWith tag expected).core.writeQueue ++
      (s.cancelWith tag expected).produced.flatMap Work.owns) := by
  unfold cancelWith
  split
  · simp [Outcome.produced]
  · have cancelled := findAndDetachLocked_cancelled s tag expected
    generalize s.findAndDetachLocked tag expected = result at cancelled
    cases cancelled with
    | withdrawn p op =>
      simpa [Outcome.produced, owns_stops] using (extract_perm s op).trans List.perm_append_comm
    | _ => simp [Outcome.produced, Work.owns]

theorem enqueueOperation_custody (s : ContextCore) (op : OpId) (post : Bool) :
    (s.writeQueue ++ [op]).Perm ((s.enqueueOperation op post).core.writeQueue ++
      (s.enqueueOperation op post).produced.flatMap Work.owns) := by
  unfold enqueueOperation
  split
  · split
    · have extracted := extract_perm ((s.register op).takeStopRequest op) op
      simpa [takeStopRequest, Outcome.produced, owns_stops] using extracted.trans List.perm_append_comm
    · cases post <;> simp [Outcome.produced, register, Work.owns]
  · simp [Outcome.produced, Work.owns]

theorem dispatchTagged_custody (s : ContextCore) (r : TaggedResponse) (rest : List Bytes) :
    s.writeQueue.Perm ((s.dispatchTagged r rest).core.writeQueue ++
      (s.dispatchTagged r rest).produced.flatMap Work.owns) := by
  unfold dispatchTagged
  split
  · simp [Outcome.produced, Work.owns]
  · rename_i p found
    have extracted := (extract_perm (s.forget r.tag p) p).trans List.perm_append_comm
    split
    · rename_i t absent
      simpa [absent, Outcome.produced, Work.owns] using extracted
    · rename_i t op present
      simpa [present, Outcome.produced, Work.owns] using extracted

theorem readLoop_custody (s : ContextCore) (texts : List Bytes) :
    s.writeQueue.Perm ((s.readLoop texts).core.writeQueue ++
    (s.readLoop texts).produced.flatMap Work.owns) := by
  cases texts with
  | nil => simp [readLoop, Outcome.produced, Work.owns]
  | cons text rest =>
    simp only [readLoop, dispatch]
    split
    · simp [Outcome.produced, Work.owns]
    · exact dispatchTagged_custody s _ rest
    · simp [dispatchUntagged, emit, Outcome.produced, Work.owns]
    · simp only [dispatchContinuation]
      split
      · simp [Outcome.produced, Work.owns]
      · split <;> simp [emit, modify, Outcome.produced, Work.owns]

theorem writeFlushed_custody (s : ContextCore) (batch : Batch) :
    s.writeQueue.Perm ((s.writeFlushed batch).core.writeQueue ++
    (s.writeFlushed batch).produced.flatMap Work.owns) := by
  unfold writeFlushed
  split
  · have flushed := flushLoop_perm batch.number batch.ops s.unlatchWrite
    simpa [Outcome.produced, owns_stops, Work.owns] using flushed.trans List.perm_append_comm
  · simpa [Outcome.produced, owns_retire] using s.extractAll_custody batch.ops

end ContextCore

/-- No section loses a cell or owns one twice: what the queue and the section had, and what the
    section makes, is what the queue and the work left behind have, and what it destroys. -/
theorem Section.Runs.custody {s : ContextCore} {sec : Section} {o : Outcome} (runs : sec.Runs s o) :
    (s.writeQueue ++ sec.consumed.flatMap Work.owns ++ sec.attaches s).Perm
      (o.core.writeQueue ++ o.produced.flatMap Work.owns ++ sec.disposes s) := by
  cases runs with
  | cancel tag => simpa [consumed, attaches, disposes] using s.cancelWith_custody tag none
  | requestStop op =>
    have stopped := (s.modify op fun c =>
      { c with stopSeen := true }).cancelWith_custody (s.cell op).tag (some op)
    simpa [consumed, attaches, disposes, ContextCore.requestStop] using stopped
  | enqueueOperation op post =>
    simpa [consumed, attaches, disposes, Work.owns] using s.enqueueOperation_custody op post
  | connectionLost ec =>
      simpa [consumed, attaches, disposes, Work.owns] using s.connectionLost_custody ec
  | readLost =>
    have lost := s.connectionLost_custody .unexpectedResponse
    simpa [consumed, attaches, disposes, Work.owns, ContextCore.readLost, Outcome.produced] using lost
  | readLoop texts => simpa [consumed, attaches, disposes, Work.owns] using s.readLoop_custody texts
  | writeFlushed batch =>
      simpa [consumed, attaches, disposes, Work.owns] using s.writeFlushed_custody batch
  | writeLost ec retired =>
    have lost := s.connectionLost_custody ec
    simpa [consumed, attaches, disposes, Work.owns, ContextCore.writeLost, Outcome.produced,
      ContextCore.owns_fails, ← List.append_assoc] using lost.append_right retired
  | writeFailed ec retired =>
    cases gone : s.abandoned <;>
      simp [consumed, attaches, disposes, Work.owns, ContextCore.writeFailed, gone, Outcome.produced]
  | writeError batch ec =>
    simpa [consumed, attaches, disposes, Work.owns, ContextCore.onWriteDone, Outcome.produced] using
      s.extractAll_custody batch.ops
  | writeQuiet batch =>
    simpa [consumed, attaches, disposes, Work.owns, ContextCore.writeQuiet, ContextCore.dispose,
      Outcome.produced] using s.extractAll_custody batch.ops
  | armWrite batch =>
    unfold ContextCore.armWrite
    split
    · simpa [consumed, attaches, disposes, Work.owns, Outcome.produced, ContextCore.owns_retire] using
        s.extractAll_custody batch.ops
    · simp [consumed, attaches, disposes, Work.owns, Outcome.produced]
  | close =>
    unfold ContextCore.close
    split
    · simp [consumed, attaches, disposes, Outcome.produced]
    · have taken := ContextCore.takeCells_perm s fun c => !c.isWritten && !c.isStaged
      simpa [consumed, attaches, disposes, Outcome.produced, ContextCore.owns_fails, Work.owns] using
        taken.trans List.perm_append_comm
  | abandon =>
    unfold ContextCore.abandon
    split
    · simp [consumed, attaches, disposes, Outcome.produced]
    · have taken := ContextCore.takeCells_perm s fun c => !c.isStaged
      simpa [consumed, attaches, disposes, Outcome.produced, Work.owns] using
        taken.trans List.perm_append_comm
  | kick =>
    unfold ContextCore.kick
    split
    · simp [consumed, attaches, disposes, Work.owns, Outcome.produced]
    · have queue := ContextCore.drain_queue s.writeQueue s.newDrain
      simp only
      split <;> simp [consumed, attaches, disposes, Work.owns, Outcome.produced, queue]
  | flush | postKick =>
    unfold ContextCore.postKick
    split <;> simp [consumed, attaches, disposes, Work.owns, Outcome.produced]
  | reading choice result =>
    unfold ContextCore.readReceiver
    split
    · split <;> simp [consumed, attaches, disposes, Work.owns, Outcome.produced]
    · simp [consumed, attaches, disposes, Work.owns, Outcome.produced]
  | writeDone batch =>
    cases gone : s.abandoned <;>
      simp [consumed, attaches, disposes, Work.owns, ContextCore.onWriteDone, gone, Outcome.produced]
  | kickScheduled | kickRefused =>
    simp [consumed, attaches, disposes, Work.owns, ContextCore.kickReceiver, Outcome.produced]
  | kickGate =>
    cases gone : s.abandoned <;>
      simp [consumed, attaches, disposes, Work.owns, ContextCore.kickGate, gone, Outcome.produced]
  | armRead =>
    unfold ContextCore.armRead
    split <;> simp [consumed, attaches, disposes, Work.owns, Outcome.produced]
  | rearm =>
    unfold ContextCore.rearm
    split <;> simp [consumed, attaches, disposes, Work.owns, Outcome.produced]
  | routeUntagged r => simp [consumed, attaches, disposes, Work.owns]
  | _ => simp [consumed, attaches, disposes, Work.owns, Outcome.produced, ContextCore.allocateTag,
      ContextCore.attach, ContextCore.dispose, ContextCore.onReadFailed, ContextCore.readStop]

/-- Every live cell has exactly one owner, the queue or one pending section, and the live cells
    have different addresses. -/
structure Custody (core : ContextCore) (pending : List Work) : Prop where
  owned : (core.writeQueue ++ pending.flatMap Work.owns).Perm core.live
  nodup : core.live.Nodup
  made : ∀ op ∈ core.live, op < core.made
  distinct : ∀ p ∈ core.live, ∀ q ∈ core.live, (core.cell p).addr = (core.cell q).addr → p = q

namespace Custody

variable {core : ContextCore} {pending : List Work}

theorem permuted {after : List Work} (perm : pending.Perm after) (custody : Custody core pending) :
    Custody core after :=
  { custody with owned := ((perm.symm.flatMap_right Work.owns).append_left _).trans custody.owned }

theorem queue_live (custody : Custody core pending) {op : OpId} (queued : op ∈ core.writeQueue) :
    op ∈ core.live :=
  custody.owned.subset (List.mem_append_left _ queued)

theorem owned_live (custody : Custody core pending) {op : OpId} {work : Work} (pends : work ∈ pending)
    (owns : op ∈ work.owns) : op ∈ core.live :=
  custody.owned.subset (List.mem_append_right _ (List.mem_flatMap.mpr ⟨work, pends, owns⟩))

theorem nodup_owned (custody : Custody core pending) :
    (core.writeQueue ++ pending.flatMap Work.owns).Nodup :=
  custody.owned.nodup_iff.mpr custody.nodup

theorem nodup_queue (custody : Custody core pending) : core.writeQueue.Nodup :=
  (List.nodup_append.mp custody.nodup_owned).1

theorem owned_not_queued (custody : Custody core pending) {op : OpId} {work : Work}
    (pends : work ∈ pending)
    (owns : op ∈ work.owns) : op ∉ core.writeQueue := fun queued =>
  (List.nodup_append.mp custody.nodup_owned).2.2 op queued op
    (List.mem_flatMap.mpr ⟨work, pends, owns⟩) rfl

theorem sole_owner (custody : Custody core pending) {op : OpId} {work other : Work}
    (pends : work ∈ pending)
    (pends' : other ∈ pending) (different : work ≠ other) (owns : op ∈ work.owns) : op ∉ other.owns :=
   Automaton.sole_holder (List.nodup_append.mp custody.nodup_owned).2.1 pends pends' different owns

theorem deref_eq (custody : Custody core pending) {p : OpId} (live : p ∈ core.live) :
    core.deref p = some p := by
  cases found : core.deref p with
  | none =>
    have absent := List.find?_eq_none.mp found p live
    simp [ContextCore.sameAddress] at absent
  | some q =>
    have same := List.find?_some found
    have member := List.mem_of_find?_eq_some found
    rw [custody.distinct p live q member (by simpa [ContextCore.sameAddress] using same)]

theorem queueFind_eq (custody : Custody core pending) {p : OpId} (queued : p ∈ core.writeQueue) :
    core.queueFind p = some p := by
  cases found : core.queueFind p with
  | none =>
    have absent := List.find?_eq_none.mp found p queued
    simp [ContextCore.sameAddress] at absent
  | some q =>
    have same := List.find?_some found
    have member := List.mem_of_find?_eq_some found
    rw [custody.distinct p (custody.queue_live queued) q (custody.queue_live member)
      (by simpa [ContextCore.sameAddress] using same)]

theorem initial : Custody {} [.armRead] :=
  ⟨.refl _, .nil, by simp, by simp⟩

theorem preserved {sec : Section} {others : List Work} {o : Outcome} (runs : sec.Runs core o)
    (consumed : pending.Perm (sec.consumed ++ others)) (custody : Custody core pending) :
    Custody o.core (o.produced ++ others) := by
  have before := (custody.permuted consumed)
  obtain ⟨made, live⟩ := runs.heap
  have conserved := runs.custody
  -- Everything live before or made now, sorted by where it is after the section.
  have total : (core.live ++ sec.attaches core).Perm
      ((o.core.writeQueue ++ (o.produced ++ others).flatMap Work.owns) ++ sec.disposes core) := by
    refine (before.owned.symm.append_right _).trans ?_
    simp only [List.flatMap_append]
    have moved := conserved.append_right (others.flatMap Work.owns)
    refine List.Perm.trans ?_ (moved.trans ?_)
    · simp only [List.append_assoc]
      exact (List.perm_append_comm.append_left _).append_left _
    · simp only [List.append_assoc]
      exact (List.perm_append_comm.append_left _).append_left _
  have attached : ∀ op ∈ sec.attaches core, op = core.made := by
    intro op member
    cases runs <;> simp_all [Section.attaches]
  have nodup : (core.live ++ sec.attaches core).Nodup := by
    refine List.nodup_append.mpr ⟨custody.nodup, ?_, ?_⟩
    · cases runs <;> simp [Section.attaches]
    · intro p member q new same
      have := custody.made p member
      rw [same, attached q new] at this
      exact Nat.lt_irrefl _ this
  have apart :
      ∀ p ∈ core.live, ∀ q ∈ sec.attaches core, (o.core.cell p).addr ≠ (o.core.cell q).addr := by
    intro p member q new same
    rw [(runs.fixed (custody.made p member)).addr] at same
    cases runs with
    | submit tag request addr callbackPath allocated fresh =>
      rw [attached q new] at same
      simp [ContextCore.attach, Operation.attach] at same
      exact fresh p member same
    | _ => simp [Section.attaches] at new
  have bound : ∀ op ∈ core.live ++ sec.attaches core, op < o.core.made := by
    intro op member
    rw [made]
    rcases List.mem_append.mp member with old | new
    · exact Nat.lt_of_lt_of_le (custody.made op old) (Nat.le_add_right _ _)
    · rw [attached op new]
      exact Nat.lt_add_of_pos_right (List.length_pos_of_mem new)
  have addresses : ∀ p ∈ core.live ++ sec.attaches core, ∀ q ∈ core.live ++ sec.attaches core,
      (o.core.cell p).addr = (o.core.cell q).addr → p = q := by
    intro p memberP q memberQ same
    rcases List.mem_append.mp memberP with oldP | newP <;> rcases List.mem_append.mp memberQ
      with oldQ | newQ
    · rw [(runs.fixed (custody.made p oldP)).addr, (runs.fixed (custody.made q oldQ)).addr] at same
      exact custody.distinct p oldP q oldQ same
    · exact absurd same (apart p oldP q newQ)
    · exact absurd same.symm (apart q oldQ p newP)
    · rw [attached p newP, attached q newQ]
  refine ⟨?_, ?_, ?_, ?_⟩
  · rw [live]
    exact (Automaton.filter_of_perm total nodup).symm
  · rw [live]
    exact nodup.filter _
  · rw [live]
    exact fun op member => bound op (List.mem_of_mem_filter member)
  · rw [live]
    exact fun p memberP q memberQ =>
      addresses p (List.mem_of_mem_filter memberP) q (List.mem_of_mem_filter memberQ)

theorem of_run {guard : ContextCore → List Work → Section → Prop} {s : System}
    (run : GuardedRun guard s) :
    Custody s.core s.pending :=
  run.invariant Custody (fun _ _ _ perm custody => custody.permuted perm) initial
    fun _ _ _ _ _ consumed custody _ runs => custody.preserved runs consumed

end Custody

end Bkmail
