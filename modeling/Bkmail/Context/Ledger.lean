import Bkmail.Context.Control
import Bkmail.Context.Loops

namespace Bkmail

def Work.owes : Work → List OpId
  | .stopScheduled op | .enqueueOperation op _ | .postCompleteStopped op | .fail op _
  | .onTagged op _ => [op]
  | .writeFailed _ retired | .writeLost _ retired => retired
  | _ => []

def Event.ends : Event → List OpId
  | .terminal op _ => [op]
  | _ => []

/-- The cells that a section drops without an end, which only an abandoned core does. -/
def Section.drops (s : ContextCore) : Section → List OpId
  | .call .abandon => if s.phase = .closed then [] else (s.takeCellsLocked fun c => !c.isStaged).2
  | .work (.armWrite batch) _ => if s.abandoned then (s.unlatchWrite.extractAll batch.ops).2 else []
  | .work (.writeFailed _ retired) _ => if s.abandoned then retired else []
  | .work (.writeQuiet batch) _ => (s.unlatchWrite.extractAll batch.ops).2
  | _ => []

namespace ContextCore

theorem owes_fails (ops : List OpId) (ec : ErrorCode) :
    (ops.map (Work.fail · ec)).flatMap Work.owes = ops := by
  simp [List.flatMap_map, Work.owes]

theorem owes_stops (ops : List OpId) : (ops.map Work.postCompleteStopped).flatMap Work.owes = ops := by
  simp [List.flatMap_map, Work.owes]

theorem owes_retire (abandoned : Bool) (retired : List OpId) :
    (retire abandoned retired).flatMap Work.owes = if abandoned then [] else retired := by
  cases abandoned <;> simp [retire, owes_fails, Work.owes]

theorem connectionLost_owes (s : ContextCore) (ec : ErrorCode) :
    (s.connectionLost ec).left.flatMap Work.owes = (s.connectionLost ec).left.flatMap Work.owns := by
  unfold connectionLost
  split
  · rfl
  · simp [owes_fails, owns_fails, Work.owes, Work.owns]

theorem cancelWith_owes (s : ContextCore) (tag : Tag) (expected : Option OpId) :
    (s.cancelWith tag expected).produced.flatMap Work.owes =
      (s.cancelWith tag expected).produced.flatMap Work.owns := by
  unfold cancelWith
  split
  · rfl
  · simp only [Outcome.produced, List.append_nil, List.flatMap_append, owes_stops, owns_stops]
    split <;> rfl

theorem enqueueOperation_owes (s : ContextCore) (op : OpId) (post : Bool) :
    (s.enqueueOperation op post).produced.flatMap Work.owes =
      (s.enqueueOperation op post).produced.flatMap Work.owns := by
  unfold enqueueOperation
  split
  · split
    · simp [Outcome.produced, owes_stops, owns_stops]
    · cases post <;> rfl
  · rfl

theorem readLoop_owes (s : ContextCore) (texts : List Bytes) :
    (s.readLoop texts).produced.flatMap Work.owes = (s.readLoop texts).produced.flatMap Work.owns := by
  cases texts with
  | nil => rfl
  | cons text rest =>
    simp only [readLoop, dispatch]
    split
    · rfl
    · simp only [dispatchTagged]
      split
      · rfl
      · split <;> rfl
    · rfl
    · simp only [dispatchContinuation]
      split
      · rfl
      · split <;> rfl

theorem writeFlushed_owes (s : ContextCore) (batch : Batch) :
    (s.writeFlushed batch).produced.flatMap Work.owes =
    (s.writeFlushed batch).produced.flatMap Work.owns := by
  unfold writeFlushed
  split
  · simp [Outcome.produced, owes_stops, owns_stops, Work.owes, Work.owns]
  · simp [Outcome.produced, owes_retire, owns_retire]

end ContextCore

namespace Section

/-- No section forgets an operation or ends it twice. -/
theorem Runs.owes {s : ContextCore} {sec : Section} {o : Outcome} (runs : sec.Runs s o) :
    (s.writeQueue ++ sec.consumed.flatMap Work.owes ++ sec.attaches s).Perm
      (o.core.writeQueue ++ o.produced.flatMap Work.owes ++ sec.ended ++ sec.drops s) := by
  have custody := runs.custody
  cases runs with
  | cancel tag =>
    simpa [consumed, attaches, disposes, ended, drops, s.cancelWith_owes tag none] using custody
  | requestStop op =>
    have owes :=
      (s.modify op fun c => { c with stopSeen := true }).cancelWith_owes (s.cell op).tag (some op)
    simpa [consumed, attaches, disposes, ended, drops, ContextCore.requestStop, owes] using custody
  | enqueueOperation op post =>
    simpa [consumed, attaches, disposes, ended, drops, Work.owes, Work.owns,
      s.enqueueOperation_owes op post]
      using custody
  | connectionLost ec =>
    simpa [consumed, attaches, disposes, ended, drops, Work.owes, Work.owns, Outcome.produced,
      s.connectionLost_owes ec] using custody
  | readLost =>
    simpa [consumed, attaches, disposes, ended, drops, Work.owes, Work.owns, Outcome.produced,
      ContextCore.readLost, s.connectionLost_owes .unexpectedResponse] using custody
  | writeLost ec retired =>
    simpa [consumed, attaches, disposes, ended, drops, Work.owes, Work.owns, Outcome.produced,
      ContextCore.writeLost, s.connectionLost_owes ec, ContextCore.owes_fails, ContextCore.owns_fails]
      using custody
  | readLoop texts =>
    simpa [consumed, attaches, disposes, ended, drops, Work.owes, Work.owns, s.readLoop_owes texts]
      using custody
  | writeFlushed batch =>
    simpa [consumed, attaches, disposes, ended, drops, Work.owes, Work.owns,
      s.writeFlushed_owes batch] using custody
  | armWrite batch =>
    unfold ContextCore.armWrite at custody ⊢
    split
    · rename_i unwinds
      rw [if_pos unwinds] at custody
      cases gone :
        s.abandoned <;> simpa [consumed, attaches, disposes, ended, drops, Work.owes, Work.owns,
        Outcome.produced, ContextCore.owes_retire, ContextCore.owns_retire, gone] using custody
    · rename_i arms
      simp only [not_or, Bool.not_eq_true] at arms
      simp [consumed, attaches, ended, drops, Work.owes, Outcome.produced, arms.2]
  | writeFailed ec retired =>
    cases gone : s.abandoned <;> simp [consumed, attaches, ended, drops, Work.owes, Outcome.produced,
      ContextCore.writeFailed, gone]
  | writeError batch ec =>
    simpa [consumed, attaches, disposes, ended, drops, Work.owes, Work.owns, Outcome.produced,
      ContextCore.onWriteDone] using custody
  | writeQuiet batch =>
    simpa [consumed, attaches, disposes, ended, drops, Work.owes, Work.owns, Outcome.produced,
      ContextCore.writeQuiet] using custody
  | close =>
    unfold ContextCore.close at custody ⊢
    split
    · simp [consumed, attaches, ended, drops, Outcome.produced]
    · rename_i opened
      rw [if_neg opened] at custody
      simpa [consumed, attaches, disposes, ended, drops, Work.owes, Work.owns, Outcome.produced,
        ContextCore.owes_fails, ContextCore.owns_fails] using custody
  | abandon =>
    unfold ContextCore.abandon at custody ⊢
    split
    · rename_i closed
      simp [consumed, attaches, ended, drops, Outcome.produced, closed]
    · rename_i running
      rw [if_neg running] at custody
      simpa [consumed, attaches, disposes, ended, drops, Work.owes, Work.owns, Outcome.produced,
        running] using custody
  | kick =>
    unfold ContextCore.kick
    split
    · simp [consumed, attaches, ended, drops, Work.owes, Outcome.produced]
    · have queue := ContextCore.drain_queue s.writeQueue s.newDrain
      simp only
      split <;> simp [consumed, attaches, ended, drops, Work.owes, Outcome.produced, queue]
  | flush | postKick =>
    unfold ContextCore.postKick
    split <;> simp [consumed, attaches, ended, drops, Work.owes, Outcome.produced]
  | reading choice result =>
    unfold ContextCore.readReceiver
    split
    · split <;> simp [consumed, attaches, ended, drops, Work.owes, Outcome.produced]
    · simp [consumed, attaches, ended, drops, Work.owes, Outcome.produced]
  | writeDone batch =>
    cases gone : s.abandoned <;>
      simp [consumed, attaches, ended, drops, Work.owes, ContextCore.onWriteDone, gone,
        Outcome.produced]
  | kickScheduled | kickRefused =>
    simp [consumed, attaches, ended, drops, Work.owes, ContextCore.kickReceiver, Outcome.produced]
  | kickGate =>
    cases gone : s.abandoned <;>
      simp [consumed, attaches, ended, drops, Work.owes, ContextCore.kickGate, gone, Outcome.produced]
  | armRead =>
    unfold ContextCore.armRead
    split <;> simp [consumed, attaches, ended, drops, Work.owes, Outcome.produced]
  | rearm =>
    unfold ContextCore.rearm
    split <;> simp [consumed, attaches, ended, drops, Work.owes, Outcome.produced]
  | routeUntagged r => simp [consumed, attaches, ended, drops, Work.owes]
  | _ => simp [consumed, attaches, ended, drops, Work.owes, Outcome.produced, ContextCore.allocateTag,
      ContextCore.attach, ContextCore.dispose, ContextCore.onReadFailed, ContextCore.readStop]

theorem ends_inert {events : List Event} (inert : ∀ event ∈ events, event.ofCell = false) :
    events.flatMap Event.ends = [] := by
  refine List.flatMap_eq_nil_iff.mpr fun event member => ?_
  have plain := inert event member
  cases event <;> simp_all [Event.ofCell, Event.ends]

theorem Acts.ends {s t : ContextCore} {sec : Section} (acts : sec.Acts s t) (none : sec.ended = []) :
    t.log.flatMap Event.ends = s.log.flatMap Event.ends := by
  cases acts with
  | enqueue | flushCall | continuation => simp [Event.ends]
  | terminate sec op call ended => simp [none] at ended
  | onTagged => simp [ended] at none
  | kick =>
    obtain ⟨events, logged, staged⟩ := ContextCore.drain_logs s.writeQueue s.newDrain
    have quiet : events.flatMap Event.ends = [] := by
      refine List.flatMap_eq_nil_iff.mpr fun event member => ?_
      obtain ⟨op, segment, rfl⟩ := staged event member
      rfl
    rw [logged, List.flatMap_append, quiet, List.append_nil, ContextCore.newDrain_log]
  | flush batch =>
    obtain ⟨events, logged, flushed⟩ := ContextCore.flushLoop_logs batch.number batch.ops s.unlatchWrite
    have quiet : events.flatMap Event.ends = [] := by
      refine List.flatMap_eq_nil_iff.mpr fun event member => ?_
      obtain ⟨op, rfl⟩ := flushed event member
      rfl
    rw [logged, List.flatMap_append, quiet, List.append_nil, ContextCore.unlatchWrite_log]
  | _ => rfl

theorem Runs.ends {s : ContextCore} {sec : Section} {o : Outcome} (runs : sec.Runs s o) :
    o.core.log.flatMap Event.ends = s.log.flatMap Event.ends ++ sec.ended := by
  obtain ⟨acted, acts, quiet⟩ := runs.acts
  have other : sec.ended = [] → o.core.log.flatMap Event.ends = s.log.flatMap Event.ends := by
    intro none
    obtain ⟨events, logged, inert⟩ := quiet.log
    rw [logged, List.flatMap_append, ends_inert inert, List.append_nil, acts.ends none]
  have terminal : ∀ (op : OpId) (call : Terminal) (t u : ContextCore),
    t.log = s.log ++ [.terminal op call] → t.Quiet u →
    u.log.flatMap Event.ends = s.log.flatMap Event.ends ++ [op] := by
    intro op call t u ended quiet
    obtain ⟨events, logged, inert⟩ := quiet.log
    rw [logged, List.flatMap_append, ends_inert inert, List.append_nil, ended]
    simp [Event.ends]
  cases runs with
  | fail op ec => exact terminal op (.fail ec) _ _ rfl (ContextCore.deliverValue_quiet _ _ _)
  | stopScheduled op => exact terminal op .stopped _ _ rfl (ContextCore.deliverStopped_quiet _ _)
  | onTagged op r =>
    simp only [ContextCore.onTagged]
    split
    · exact terminal op (.tagged r) _ _ rfl (ContextCore.deliverStopped_quiet _ _)
    · exact terminal op (.tagged r) _ _ rfl (ContextCore.deliverValue_quiet _ _ _)
  | _ =>
    rw [other rfl]
    simp [ended]

theorem Runs.abandons {s : ContextCore} {sec : Section} {o : Outcome} (runs : sec.Runs s o) :
    o.core.abandoned = s.abandoned ∨ sec = .call .abandon ∧ o.core.abandoned = true := by
  cases runs.controls with
  | idle _ _ control => exact .inl control.abandoned
  | suspend => exact .inl rfl
  | teardown _ _ running phase abandoned =>
    rcases abandoned with same | rfl
    · exact .inl same
    · cases runs with
      | abandon =>
        refine .inr ⟨rfl, ?_⟩
        unfold ContextCore.abandon
        rw [if_neg running]
  | finish => exact .inl rfl
  | kick => exact .inl (ContextCore.drain_agrees s.writeQueue s.newDrain).abandoned
  | armWrite => exact .inl rfl
  | writeEnd _ _ _ control => exact .inl control.abandoned
  | armRead => exact .inl rfl
  | unwindRead =>
    left
    unfold ContextCore.maybeFinishClose
    split <;> rfl
  | readEnd _ _ _ control => exact .inl control.abandoned

theorem Runs.made_range {s : ContextCore} {sec : Section} {o : Outcome} (runs : sec.Runs s o) :
    List.range o.core.made = List.range s.made ++ sec.attaches s := by
  rw [runs.heap.1]
  cases runs <;> simp [attaches, List.range_succ]

end Section

/-- Every operation that was ever submitted is queued, owed by a pending section, or ended, and
    once only; only an abandoned core has dropped any. -/
structure Ledger (core : ContextCore) (pending : List Work) : Prop where
  account : ∃ dropped, (core.writeQueue ++ pending.flatMap Work.owes ++ core.log.flatMap Event.ends ++
    dropped).Perm (List.range core.made) ∧ (core.abandoned = false → dropped = [])
  quiet : ∀ batch, .writeQuiet batch ∈ pending → core.abandoned = true

namespace Ledger

variable {core : ContextCore} {pending : List Work}

theorem permuted {after : List Work} (perm : pending.Perm after) (ledger : Ledger core pending) :
    Ledger core after := by
  obtain ⟨⟨dropped, account, kept⟩, quiet⟩ := ledger
  refine ⟨⟨dropped, List.Perm.trans ?_ account, kept⟩, fun batch member =>
    quiet batch (perm.symm.subset member)⟩
  exact (((perm.symm.flatMap_right Work.owes).append_left _).append_right _).append_right _

theorem initial : Ledger {} [.armRead] := ⟨⟨[], .refl _, fun _ => rfl⟩, by simp⟩

theorem preserved {sec : Section} {others : List Work} {o : Outcome} (runs : sec.Runs core o)
    (consumed : pending.Perm (sec.consumed ++ others)) (ledger : Ledger core pending) :
    Ledger o.core (o.produced ++ others) := by
  obtain ⟨⟨dropped, account, kept⟩, quiet⟩ := ledger.permuted consumed
  have abandons := runs.abandons
  refine ⟨⟨sec.drops core ++ dropped, ?_, ?_⟩, ?_⟩
  · rw [runs.made_range, runs.ends]
    refine List.Perm.trans ?_ (account.append_right (sec.attaches core))
    refine List.perm_iff_count.mpr fun op => ?_
    have moved := runs.owes.count_eq op
    simp only [List.flatMap_append, List.count_append] at moved ⊢
    omega
  · intro present
    rcases abandons with same | ⟨-, gone⟩
    · rw [same] at present
      rw [kept present, List.append_nil]
      cases runs with
      | abandon =>
        unfold ContextCore.abandon at same
        split at same
        · rename_i closed
          simp [Section.drops, closed]
        · simp [present] at same
      | writeQuiet batch =>
        have gone := quiet batch (by simp [Section.consumed])
        simp [present] at gone
      | armWrite | writeFailed => simp [Section.drops, present]
      | _ => rfl
    · simp [gone] at present
  · intro batch member
    have before : core.abandoned = true := by
      rcases List.mem_append.mp member with new | old
      · cases runs.spawns new rfl with
        | writeDone _ gone => exact gone
      · exact quiet batch (List.mem_append_right _ old)
    rcases abandons with same | ⟨-, gone⟩
    · rw [same, before]
    · exact gone

theorem of_run {guard : ContextCore → List Work → Section → Prop} {s : System}
    (run : GuardedRun guard s) :
    Ledger s.core s.pending :=
  run.invariant Ledger (fun _ _ _ perm ledger => ledger.permuted perm) initial
    fun _ _ _ _ _ consumed ledger _ runs => ledger.preserved runs consumed

theorem nodup (ledger : Ledger core pending) :
    (core.writeQueue ++ pending.flatMap Work.owes ++ core.log.flatMap Event.ends).Nodup := by
  obtain ⟨dropped, account, -⟩ := ledger.account
  exact (List.nodup_append.mp (account.nodup_iff.mpr List.nodup_range)).1

theorem not_owed (ledger : Ledger core pending) {op : OpId} {work : Work} (pends : work ∈ pending)
    (owes : op ∈ work.owes) : op ∉ core.writeQueue := fun queued =>
  (List.nodup_append.mp (List.nodup_append.mp ledger.nodup).1).2.2 op queued op
    (List.mem_flatMap.mpr ⟨work, pends, owes⟩) rfl

theorem sole_debtor (ledger : Ledger core pending) {op : OpId} {work other : Work}
    (pends : work ∈ pending)
    (pends' : other ∈ pending) (different : work ≠ other) (owes : op ∈ work.owes) : op ∉ other.owes :=
  Automaton.sole_holder (List.nodup_append.mp (List.nodup_append.mp ledger.nodup).1).2.1 pends
    pends' different owes

end Ledger

end Bkmail
