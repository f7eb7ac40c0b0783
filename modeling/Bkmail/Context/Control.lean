import Bkmail.Context.Custody

namespace Bkmail

/-- The batch of a write that is about to be armed, is armed, or has completed without its
    completion having run yet. -/
def Work.batch? : Work → Option Batch
  | .armWrite batch | .writing batch | .writeQuiet batch | .writeFlushed batch => some batch
  | _ => none

/-- The sections of the read pump, from the arming of a read to the end of its completion. -/
def Work.reads : Work → Bool
  | .armRead | .reading | .onReadFailed _ | .readLoop _ | .rearm | .readLost | .readStop => true
  | _ => false

def batchesOf (pending : List Work) : List Batch := pending.filterMap Work.batch?

def readsOf (pending : List Work) : Nat := pending.countP Work.reads

@[simp] theorem batchesOf_nil : batchesOf [] = [] := rfl

@[simp] theorem batchesOf_cons (work : Work) (pending : List Work) :
    batchesOf (work :: pending) = work.batch?.toList ++ batchesOf pending := by
  cases found : work.batch? <;> simp [batchesOf, found]

@[simp] theorem batchesOf_append (left right : List Work) :
    batchesOf (left ++ right) = batchesOf left ++ batchesOf right := by
  simp [batchesOf]

theorem batchesOf_perm {before after : List Work} (perm : before.Perm after) :
    (batchesOf before).Perm (batchesOf after) := perm.filterMap Work.batch?

@[simp] theorem readsOf_nil : readsOf [] = 0 := rfl

@[simp] theorem readsOf_cons (work : Work) (pending : List Work) :
    readsOf (work :: pending) = readsOf pending + if work.reads then 1 else 0 := by
  simp [readsOf, List.countP_cons]

@[simp] theorem readsOf_append (left right : List Work) :
    readsOf (left ++ right) = readsOf left + readsOf right := by
  simp [readsOf]

namespace ContextCore

/-- Cores with the same phase and latches that have done the same to the transport. -/
structure SameControl (s t : ContextCore) : Prop where
  phase : t.phase = s.phase
  abandoned : t.abandoned = s.abandoned
  writeInFlight : t.writeInFlight = s.writeInFlight
  readRunning : t.readRunning = s.readRunning
  suspendRead : t.suspendRead = s.suspendRead
  transport : t.transportLog = s.transportLog

theorem Agrees.control {s t : ContextCore} (agrees : s.Agrees t) : s.SameControl t :=
  ⟨agrees.phase, agrees.abandoned, agrees.writeInFlight, agrees.readRunning, agrees.suspendRead,
    agrees.transport⟩

theorem SameControl.refl (s : ContextCore) : s.SameControl s := ⟨rfl, rfl, rfl, rfl, rfl, rfl⟩

theorem SameControl.trans {s t u : ContextCore} (first : s.SameControl t) (second : t.SameControl u) :
    s.SameControl u :=
  ⟨second.phase.trans first.phase, second.abandoned.trans first.abandoned,
    second.writeInFlight.trans first.writeInFlight, second.readRunning.trans first.readRunning,
    second.suspendRead.trans first.suspendRead, second.transport.trans first.transport⟩

theorem tokens_fails (ops : List OpId) (ec : ErrorCode) :
    batchesOf (ops.map (Work.fail · ec)) = [] ∧ readsOf (ops.map (Work.fail · ec)) = 0 := by
  simp [batchesOf, readsOf, Work.batch?, Work.reads, List.countP_map, List.filterMap_map,
    Function.comp_def]

theorem tokens_stops (ops : List OpId) :
    batchesOf (ops.map Work.postCompleteStopped) = [] ∧
    readsOf (ops.map Work.postCompleteStopped) = 0 := by
  simp [batchesOf, readsOf, Work.batch?, Work.reads, List.countP_map, List.filterMap_map,
    Function.comp_def]

theorem tokens_retire (abandoned : Bool) (retired : List OpId) :
    batchesOf (retire abandoned retired) = [] ∧ readsOf (retire abandoned retired) = 0 := by
  cases abandoned <;> simp [retire, tokens_fails, Work.batch?, Work.reads]

end ContextCore

inductive Section.EndsRead (s : ContextCore) : Section → Prop where
  | ignored (choice : Choice) : s.abandoned = true ∨ s.phase = .closed →
      EndsRead s (.work .reading choice)
  | failed (ec : Option ErrorCode) : EndsRead s (.work (.onReadFailed ec) .go)
  | stopped : EndsRead s (.work .readStop .go)
  | unarmed : s.phase ≠ .opened ∨ s.suspendRead = true → EndsRead s (.work .rearm .go)

/-- What a section does to the phase, the latches, the tokens of the two pumps and the transport. -/
inductive Section.Controls (s : ContextCore) : Section → Outcome → Prop where
  | idle (sec : Section) (o : Outcome) : s.SameControl o.core →
      batchesOf o.produced = batchesOf sec.consumed →
      readsOf o.produced = readsOf sec.consumed → Controls s sec o
  | suspend : Controls s (.call .suspendReadForRelocation) { core := { s with suspendRead := true } }
  | teardown (sec : Section) (o : Outcome) : s.phase ≠ .closed → o.core.phase = .draining →
      (o.core.abandoned = s.abandoned ∨ sec = .call .abandon) → o.core.writeInFlight = s.writeInFlight →
      o.core.readRunning = s.readRunning → o.core.suspendRead = s.suspendRead →
      o.core.transportLog = s.transportLog → batchesOf o.produced = batchesOf sec.consumed →
      readsOf o.produced = readsOf sec.consumed → o.core.continuationTarget = none → Controls s sec o
  | finish : s.phase = .draining → s.readRunning = false → s.writeInFlight = false →
      Controls s (.work .maybeFinishClose .go)
      { core := { s.emit [.descriptorClosed] with phase := .closed } }
  | kick : s.phase = .opened → s.writeInFlight = false →
      Controls s (.work .kick .go)
        { core := { (s.newDrain.drain s.writeQueue).1 with writeInFlight := true }
          left := [.armWrite ⟨(s.newDrain.drain s.writeQueue).1.drains,
            (s.newDrain.drain s.writeQueue).2⟩] }
  | armWrite (batch : Batch) : s.phase = .opened → s.abandoned = false →
      Controls s (.work (.armWrite batch) .go)
        { core := s.emit [.writeArmed batch.number], armed := [.writing batch] }
  | writeEnd (sec : Section) (o : Outcome) (batch : Batch) : s.unlatchWrite.SameControl o.core →
      batchesOf sec.consumed = [batch] → batchesOf o.produced = [] → readsOf sec.consumed = 0 →
      readsOf o.produced = 0 → Controls s sec o
  | armRead : s.phase = .opened → s.abandoned = false → s.suspendRead = false →
      Controls s (.work .armRead .go) { core := s.emit [.prepared, .readArmed], armed := [.reading] }
  | unwindRead : s.phase ≠ .opened ∨ s.abandoned = true ∨ s.suspendRead = true →
      Controls s (.work .armRead .go) { core := s.unlatchRead.maybeFinishClose }
  | readEnd (sec : Section) (o : Outcome) : sec.EndsRead s → s.unlatchRead.SameControl o.core →
      batchesOf sec.consumed = [] → batchesOf o.produced = [] → readsOf sec.consumed = 1 →
      readsOf o.produced = 0 → Controls s sec o

namespace ContextCore

open Section (Controls)

theorem connectionLost_controls (s : ContextCore) (ec : ErrorCode) :
    s.phase = .closed ∧ s.connectionLost ec = { core := s } ∨
      s.phase ≠ .closed ∧ (s.connectionLost ec).core.phase = .draining ∧
        (s.connectionLost ec).core.abandoned = s.abandoned ∧
        (s.connectionLost ec).core.writeInFlight = s.writeInFlight ∧
        (s.connectionLost ec).core.readRunning = s.readRunning ∧
        (s.connectionLost ec).core.suspendRead = s.suspendRead ∧
        (s.connectionLost ec).core.transportLog = s.transportLog ∧
        (s.connectionLost ec).core.continuationTarget = none ∧
        batchesOf (s.connectionLost ec).left = [] ∧ readsOf (s.connectionLost ec).left = 0 := by
  unfold connectionLost
  split
  · rename_i closed
    exact .inl ⟨closed, rfl⟩
  · rename_i running
    refine .inr ⟨running, rfl, rfl, rfl, rfl, rfl, ?_, rfl, ?_, ?_⟩
    · simp only [transportLog, emit_log, takeCellsLocked, List.filter_append]
      split <;> simp [Event.transport]
    · simp [tokens_fails, Work.batch?]
    · simp [tokens_fails, Work.reads]

theorem cancelWith_controls (s : ContextCore) (tag : Tag) (expected : Option OpId) :
    s.SameControl (s.cancelWith tag expected).core ∧
    batchesOf (s.cancelWith tag expected).produced = [] ∧
      readsOf (s.cancelWith tag expected).produced = 0 := by
  unfold cancelWith
  split
  · exact ⟨.refl s, rfl, rfl⟩
  · have cancelled := findAndDetachLocked_cancelled s tag expected
    generalize s.findAndDetachLocked tag expected = result at cancelled
    cases cancelled with
    | refused => exact ⟨.refl s, rfl, rfl⟩
    | dangling p => exact ⟨(emit_agrees s [.dangling p] rfl).control, rfl, rfl⟩
    | withdrawn p op =>
      have agrees := extract_agrees s op
      refine ⟨⟨agrees.phase, agrees.abandoned, agrees.writeInFlight, agrees.readRunning,
        agrees.suspendRead, agrees.transport⟩, ?_, ?_⟩
      · simp [Outcome.produced, tokens_stops]
      · simp [Outcome.produced, tokens_stops]
    | done p op idle => exact ⟨⟨rfl, rfl, rfl, rfl, rfl, rfl⟩, rfl, rfl⟩
    | detached p op => exact ⟨⟨rfl, rfl, rfl, rfl, rfl, rfl⟩, rfl, rfl⟩

theorem enqueueOperation_controls (s : ContextCore) (op : OpId) (post : Bool) :
    s.SameControl (s.enqueueOperation op post).core ∧
    batchesOf (s.enqueueOperation op post).produced = [] ∧
      readsOf (s.enqueueOperation op post).produced = 0 := by
  have registered : s.SameControl (s.register op) :=
    ⟨rfl, rfl, rfl, rfl, rfl, (emit_agrees s [.enqueued op] rfl).transport⟩
  unfold enqueueOperation
  split
  · split
    · have agrees := extract_agrees ((s.register op).takeStopRequest op) op
      refine ⟨registered.trans ⟨agrees.phase, agrees.abandoned, agrees.writeInFlight,
        agrees.readRunning, agrees.suspendRead, agrees.transport⟩, ?_, ?_⟩
      · simp [Outcome.produced, tokens_stops]
      · simp [Outcome.produced, tokens_stops]
    · cases post <;> exact ⟨registered, rfl, rfl⟩
  · exact ⟨.refl s, rfl, rfl⟩

theorem dispatchTagged_controls (s : ContextCore) (r : TaggedResponse) (rest : List Bytes) :
    s.SameControl (s.dispatchTagged r rest).core ∧ batchesOf (s.dispatchTagged r rest).produced = [] ∧
      readsOf (s.dispatchTagged r rest).produced = 1 := by
  unfold dispatchTagged
  split
  · exact ⟨.refl s, rfl, rfl⟩
  · rename_i p found
    have agrees := (extract_agrees (s.forget r.tag p) p).control
    split
    · rename_i t absent
      rw [absent] at agrees
      exact ⟨⟨agrees.phase, agrees.abandoned, agrees.writeInFlight, agrees.readRunning,
        agrees.suspendRead, agrees.transport⟩, rfl, rfl⟩
    · rename_i t op present
      rw [present] at agrees
      exact ⟨⟨agrees.phase, agrees.abandoned, agrees.writeInFlight, agrees.readRunning,
        agrees.suspendRead, agrees.transport⟩, rfl, rfl⟩

theorem readLoop_controls (s : ContextCore) (texts : List Bytes) :
    s.SameControl (s.readLoop texts).core ∧ batchesOf (s.readLoop texts).produced = [] ∧
      readsOf (s.readLoop texts).produced = 1 := by
  cases texts with
  | nil => exact ⟨.refl s, rfl, rfl⟩
  | cons text rest =>
    simp only [readLoop, dispatch]
    split
    · exact ⟨.refl s, rfl, rfl⟩
    · exact dispatchTagged_controls s _ rest
    · rename_i r parsed
      have told := emit_agrees s ((makeUnsolicitedEvent r).toList.map .unsolicited)
        (by cases makeUnsolicitedEvent r <;> rfl)
      exact ⟨⟨rfl, rfl, rfl, rfl, rfl, told.transport⟩, rfl, rfl⟩
    · simp only [dispatchContinuation]
      split
      · exact ⟨.refl s, rfl, rfl⟩
      · split
        · rename_i p target _ absent
          exact ⟨⟨rfl, rfl, rfl, rfl, rfl, (emit_agrees s [.dangling p] rfl).transport⟩, rfl, rfl⟩
        · rename_i p target _ op cell
          exact ⟨⟨rfl, rfl, rfl, rfl, rfl, (emit_agrees s [.continued op] rfl).transport⟩, rfl, rfl⟩

theorem kick_controls (s : ContextCore) : Controls s (.work .kick .go) s.kick := by
  unfold kick
  split
  · exact .idle _ _ (.refl s) rfl rfl
  · rename_i drains
    simp only [not_or, not_not, Bool.not_eq_true] at drains
    have agrees := (drain_agrees s.writeQueue s.newDrain).control
    simp only
    split
    · exact .idle _ _ ⟨agrees.phase, agrees.abandoned, agrees.writeInFlight, agrees.readRunning,
        agrees.suspendRead, agrees.transport⟩ rfl rfl
    · exact .kick drains.1 drains.2

theorem writeFlushed_controls (s : ContextCore) (batch : Batch) :
    Controls s (.work (.writeFlushed batch) .go) (s.writeFlushed batch) := by
  unfold writeFlushed
  split
  · refine .writeEnd _ _ batch (flushLoop_agrees batch.number batch.ops s.unlatchWrite).control
      rfl ?_ rfl ?_
    · simp [Outcome.produced, tokens_stops, Work.batch?]
    · simp [Outcome.produced, tokens_stops, Work.reads]
  · refine .writeEnd _ _ batch (extractAll_agrees batch.ops s.unlatchWrite).control rfl ?_ rfl ?_
    · simp [Outcome.produced, tokens_retire]
    · simp [Outcome.produced, tokens_retire]

theorem armWrite_controls (s : ContextCore) (batch : Batch) :
    Controls s (.work (.armWrite batch) .go) (s.armWrite batch) := by
  unfold armWrite
  split
  · refine .writeEnd _ _ batch (extractAll_agrees batch.ops s.unlatchWrite).control rfl ?_ rfl ?_
    · simp [Outcome.produced, tokens_retire]
    · simp [Outcome.produced, tokens_retire]
  · rename_i arms
    simp only [not_or, not_not, Bool.not_eq_true] at arms
    exact .armWrite batch arms.1 arms.2

theorem armRead_controls (s : ContextCore) : Controls s (.work .armRead .go) s.armRead := by
  unfold armRead
  split
  · rename_i unwinds
    exact .unwindRead unwinds
  · rename_i arms
    simp only [not_or, not_not, Bool.not_eq_true] at arms
    exact .armRead arms.1 arms.2.1 arms.2.2

theorem readReceiver_controls (s : ContextCore) (choice : Choice) (result : ReadResult) :
    Controls s (.work .reading choice) (s.readReceiver result) := by
  unfold readReceiver
  split
  · split <;> exact .idle _ _ (.refl s) rfl rfl
  · rename_i ignored
    simp only [Bool.not_eq_true', not_and_or, not_not, Bool.not_eq_false] at ignored
    exact .readEnd _ _ (.ignored choice ignored) (.refl _) rfl rfl rfl rfl

theorem onWriteDone_controls (s : ContextCore) (choice : Choice) (ec : Option ErrorCode)
    (batch : Batch) :
    Controls s (.work (.writing batch) choice) (s.onWriteDone ec batch) := by
  unfold onWriteDone
  split
  · exact .writeEnd _ _ batch (extractAll_agrees batch.ops s.unlatchWrite).control rfl rfl rfl rfl
  · refine .idle _ _ (.refl s) ?_ ?_
    · cases gone : s.abandoned <;> rfl
    · cases gone : s.abandoned <;> rfl

end ContextCore

theorem Section.Runs.controls {s : ContextCore} {sec : Section} {o : Outcome} (runs : sec.Runs s o) :
    Section.Controls s sec o := by
  cases runs with
  | suspend => exact .suspend
  | cancel tag =>
    obtain ⟨control, batches, reads⟩ := s.cancelWith_controls tag none
    exact .idle _ _ control batches reads
  | requestStop op =>
    obtain ⟨control, batches, reads⟩ :=
      (s.modify op fun c => { c with stopSeen := true }).cancelWith_controls (s.cell op).tag (some op)
    have stopped : s.SameControl (s.modify op fun c => { c with stopSeen := true }) :=
      ⟨rfl, rfl, rfl, rfl, rfl, rfl⟩
    exact .idle _ _ (stopped.trans control) batches reads
  | enqueueOperation op post =>
    obtain ⟨control, batches, reads⟩ := s.enqueueOperation_controls op post
    exact .idle _ _ control batches reads
  | readLoop texts =>
    obtain ⟨control, batches, reads⟩ := s.readLoop_controls texts
    exact .idle _ _ control batches reads
  | connectionLost ec =>
    rcases s.connectionLost_controls ec with ⟨closed, same⟩ |
      ⟨running, phase, abandoned, writing, reading, suspended, transport, target, batches, reads⟩
    · rw [same]
      exact .idle _ _ (.refl s) rfl rfl
    · refine .teardown _ _ running phase (.inl abandoned) writing reading suspended
        transport ?_ ?_ target
      · simp [Outcome.produced, batches, consumed, Work.batch?]
      · simp [Outcome.produced, reads, consumed, Work.reads]
  | writeLost ec retired =>
    rcases s.connectionLost_controls ec with ⟨closed, same⟩ |
      ⟨running, phase, abandoned, writing, reading, suspended, transport, target, batches, reads⟩
    · refine .idle _ _ ?_ ?_ ?_
      · simp only [ContextCore.writeLost, same]
        exact .refl s
      · simp [ContextCore.writeLost, same, Outcome.produced, ContextCore.tokens_fails, consumed,
          Work.batch?]
      · simp [ContextCore.writeLost, same, Outcome.produced, ContextCore.tokens_fails,
          consumed, Work.reads]
    · refine .teardown _ _ running phase (.inl abandoned) writing reading suspended
        transport ?_ ?_ target
      · simp [ContextCore.writeLost, Outcome.produced, batches, ContextCore.tokens_fails, consumed,
          Work.batch?]
      · simp [ContextCore.writeLost, Outcome.produced, reads, ContextCore.tokens_fails,
          consumed, Work.reads]
  | readLost =>
    rcases s.connectionLost_controls .unexpectedResponse with ⟨closed, same⟩ |
      ⟨running, phase, abandoned, writing, reading, suspended, transport, target, batches, reads⟩
    · refine .idle _ _ ?_ ?_ ?_
      · simp only [ContextCore.readLost, same]
        exact .refl s
      · simp [ContextCore.readLost, same, Outcome.produced, consumed, Work.batch?]
      · simp [ContextCore.readLost, same, Outcome.produced, consumed, Work.reads]
    · refine .teardown _ _ running phase (.inl abandoned) writing reading suspended
        transport ?_ ?_ target
      · simp [ContextCore.readLost, Outcome.produced, batches, consumed, Work.batch?]
      · simp [ContextCore.readLost, Outcome.produced, reads, consumed, Work.reads]
  | close =>
    unfold ContextCore.close
    split
    · exact .idle _ _ (.refl s) rfl rfl
    · rename_i opened
      rw [not_not] at opened
      refine .teardown _ _ (by simp [opened]) rfl (.inl rfl) rfl rfl rfl
        (ContextCore.emit_agrees s [.shutdownRead] rfl).transport ?_ ?_ rfl
      · simp [Outcome.produced, ContextCore.tokens_fails, consumed, Work.batch?]
      · simp [Outcome.produced, ContextCore.tokens_fails, consumed, Work.reads]
  | abandon =>
    unfold ContextCore.abandon
    split
    · exact .idle _ _ (.refl s) rfl rfl
    · rename_i running
      exact .teardown _ _ running rfl (.inr rfl) rfl rfl rfl
        (ContextCore.emit_agrees s [.shutdownRead] rfl).transport rfl rfl rfl
  | maybeFinishClose =>
    unfold ContextCore.maybeFinishClose
    split
    · rename_i quiet
      exact .finish quiet.1 quiet.2.1 quiet.2.2
    · exact .idle _ _ (.refl s) rfl rfl
  | kick => exact s.kick_controls
  | armWrite batch => exact s.armWrite_controls batch
  | writeFlushed batch => exact s.writeFlushed_controls batch
  | writeDone batch => exact s.onWriteDone_controls _ none batch
  | writeError batch ec => exact s.onWriteDone_controls _ (some ec) batch
  | writeQuiet batch =>
    have agrees := ContextCore.extractAll_agrees batch.ops s.unlatchWrite
    refine .writeEnd _ _ batch ?_ rfl rfl rfl rfl
    exact agrees.control.trans ⟨rfl, rfl, rfl, rfl, rfl,
      (ContextCore.emit_agrees _ [.disposed _] rfl).transport⟩
  | writeFailed ec retired =>
    refine .idle _ _ (.refl s) ?_ ?_
    · cases gone : s.abandoned <;> simp [ContextCore.writeFailed, gone, Outcome.produced, consumed,
        Work.batch?]
    · cases gone :
        s.abandoned <;> simp [ContextCore.writeFailed, gone, Outcome.produced, consumed, Work.reads]
  | armRead => exact s.armRead_controls
  | reading choice result => exact s.readReceiver_controls choice result
  | onReadFailed ec => exact .readEnd _ _ (.failed ec) (.refl _) rfl rfl rfl rfl
  | readStop => exact .readEnd _ _ .stopped (.refl _) rfl rfl rfl rfl
  | rearm =>
    unfold ContextCore.rearm
    split
    · exact .idle _ _ (.refl s) rfl rfl
    · rename_i unarmed
      simp only [not_and_or, Bool.not_eq_false] at unarmed
      exact .readEnd _ _ (.unarmed unarmed) (.refl _) rfl rfl rfl rfl
  | flush =>
    unfold ContextCore.postKick
    split
    · exact .idle _ _ (ContextCore.emit_agrees s [.flushCalled] rfl).control rfl rfl
    · exact .idle _ _ ⟨rfl, rfl, rfl, rfl, rfl,
        (ContextCore.emit_agrees s [.flushCalled] rfl).transport⟩ rfl rfl
  | postKick =>
    unfold ContextCore.postKick
    split
    · exact .idle _ _ (.refl s) rfl rfl
    · exact .idle _ _ ⟨rfl, rfl, rfl, rfl, rfl, rfl⟩ rfl rfl
  | kickScheduled | kickRefused => exact .idle _ _ ⟨rfl, rfl, rfl, rfl, rfl, rfl⟩ rfl rfl
  | kickGate =>
    refine .idle _ _ (.refl s) ?_ ?_
    · cases gone :
        s.abandoned <;> simp [ContextCore.kickGate, gone, Outcome.produced, consumed, Work.batch?]
    · cases gone :
        s.abandoned <;> simp [ContextCore.kickGate, gone, Outcome.produced, consumed, Work.reads]
  | fail op ec => exact .idle _ _ (s.fail_agrees op ec).control rfl rfl
  | onTagged op r => exact .idle _ _ (s.onTagged_agrees op r).control rfl rfl
  | stopScheduled op => exact .idle _ _ (s.completeStopped_agrees op).control rfl rfl
  | routeUntagged r =>
    refine .idle _ _ (s.routeUntagged_agrees r).control ?_ ?_
    · simp [consumed, Work.batch?]
    · simp [consumed, Work.reads]
  | dispose ops =>
    exact .idle _ _ ⟨rfl, rfl, rfl, rfl, rfl,
      (ContextCore.emit_agrees s [.disposed ops] rfl).transport⟩ rfl rfl
  | allocateTag => exact .idle _ _ ⟨rfl, rfl, rfl, rfl, rfl, rfl⟩ rfl rfl
  | submit => exact .idle _ _ ⟨rfl, rfl, rfl, rfl, rfl, rfl⟩ rfl rfl
  | postCompleteStopped op => exact .idle _ _ (.refl s) rfl rfl

theorem Section.Controls.opens {s : ContextCore} {sec : Section} {o : Outcome}
    (controls : sec.Controls s o)
    (opened : o.core.phase = .opened) : s.phase = .opened := by
  cases controls with
  | idle _ _ same | writeEnd _ _ _ same | readEnd _ _ _ same => exact same.phase.symm.trans opened
  | teardown _ _ _ draining => simp [draining] at opened
  | finish => simp at opened
  | unwindRead =>
    unfold ContextCore.maybeFinishClose at opened
    split at opened
    · simp at opened
    · exact opened
  | suspend => exact opened
  | kick running => exact running
  | armWrite _ running => exact running
  | armRead running => exact running

theorem Section.Controls.unroutes {s : ContextCore} {sec : Section} {o : Outcome}
    (controls : sec.Controls s o)
    (opened : s.phase = .opened) : o.core.phase = .opened ∨ o.core.continuationTarget = none := by
  cases controls with
  | idle _ _ same | writeEnd _ _ _ same | readEnd _ _ _ same => exact .inl (same.phase.trans opened)
  | teardown _ _ _ _ _ _ _ _ _ _ _ target => exact .inr target
  | finish draining => simp [opened] at draining
  | unwindRead =>
    left
    simp [ContextCore.maybeFinishClose, opened]
  | kick =>
    left
    exact (ContextCore.drain_agrees s.writeQueue s.newDrain).phase.trans opened
  | suspend | armWrite | armRead => exact .inl opened

theorem Section.Controls.stays_closed {s : ContextCore} {sec : Section} {o : Outcome}
    (controls : sec.Controls s o)
    (closed : s.phase = .closed) : o.core.phase = .closed := by
  cases controls with
  | idle _ _ control => rw [control.phase, closed]
  | suspend => exact closed
  | teardown _ _ running => exact absurd closed running
  | finish draining => simp [closed] at draining
  | kick opened => simp [closed] at opened
  | armWrite _ opened => simp [closed] at opened
  | writeEnd _ _ _ control => exact control.phase.trans closed
  | armRead opened => simp [closed] at opened
  | unwindRead =>
    unfold ContextCore.maybeFinishClose
    split
    · rfl
    · exact closed
  | readEnd _ _ _ control => exact control.phase.trans closed

def Work.rooted : Work → Bool
  | .enqueueOperation .. | .writeFailed .. | .writeLost .. | .writeQuiet _ | .connectionLost _
  | .readStop => true
  | _ => false

inductive Section.Spawns (s : ContextCore) : Section → Work → Prop where
  | submit (tag : Tag) (request : Request) (addr : Nat) (callbackPath : Bool) :
      Spawns s (.call (.submit tag request addr callbackPath)) (.enqueueOperation s.made !callbackPath)
  | writeError (batch : Batch) (ec : ErrorCode) :
      Spawns s (.work (.writing batch) (.failed ec))
      (.writeFailed ec (s.unlatchWrite.extractAll batch.ops).2)
  | writeFailed (ec : ErrorCode) (retired : List OpId) : s.abandoned = false →
      Spawns s (.work (.writeFailed ec retired) .go) (.writeLost ec retired)
  | writeDone (batch : Batch) : s.abandoned = true →
      Spawns s (.work (.writing batch) .done) (.writeQuiet batch)
  | onReadFailed (ec : Option ErrorCode) (cause : ErrorCode) :
      Spawns s (.work (.onReadFailed ec) .go) (.connectionLost cause)
  | readLost : Spawns s (.work .readLost .go) .readStop

namespace ContextCore

theorem rootless_fails (ops : List OpId) (ec : ErrorCode) :
    ∀ w ∈ ops.map (Work.fail · ec), w.rooted = false := by
  intro w member
  obtain ⟨op, -, rfl⟩ := List.mem_map.mp member
  rfl

theorem rootless_stops (ops : List OpId) :
    ∀ w ∈ ops.map Work.postCompleteStopped, w.rooted = false := by
  intro w member
  obtain ⟨op, -, rfl⟩ := List.mem_map.mp member
  rfl

theorem connectionLost_rootless (s : ContextCore) (ec : ErrorCode) :
    ∀ w ∈ (s.connectionLost ec).left, w.rooted = false := by
  unfold connectionLost
  split
  · simp
  · intro w member
    rcases List.mem_append.mp member with fails | rest
    · exact rootless_fails _ ec w fails
    · rcases List.mem_pair.mp rest with rfl | rfl <;> rfl

theorem retire_rootless (abandoned : Bool) (retired : List OpId) :
    ∀ w ∈ retire abandoned retired, w.rooted = false := by
  intro w member
  rcases List.mem_append.mp member with fails | rest
  · cases abandoned with
    | true => simp at fails
    | false => exact rootless_fails _ _ w fails
  · rcases List.mem_pair.mp rest with rfl | rfl <;> rfl

theorem cancelWith_rootless (s : ContextCore) (tag : Tag) (expected : Option OpId) :
    ∀ w ∈ (s.cancelWith tag expected).produced, w.rooted = false := by
  unfold cancelWith
  split
  · simp [Outcome.produced]
  · intro w member
    simp only [Outcome.produced, List.append_nil] at member
    rcases List.mem_append.mp member with kicks | stops
    · split at kicks
      · rw [List.mem_singleton.mp kicks]
        rfl
      · simp at kicks
    · exact rootless_stops _ w stops

theorem readLoop_rootless (s : ContextCore) (texts : List Bytes) :
    ∀ w ∈ (s.readLoop texts).produced, w.rooted = false := by
  cases texts with
  | nil => simp [readLoop, Outcome.produced, Work.rooted]
  | cons text rest =>
    simp only [readLoop, dispatch]
    split
    · simp [Outcome.produced, Work.rooted]
    · simp only [dispatchTagged]
      split
      · simp [Outcome.produced, Work.rooted]
      · split <;> simp [Outcome.produced, Work.rooted]
    · simp [dispatchUntagged, Outcome.produced, Work.rooted]
    · simp only [dispatchContinuation]
      split
      · simp [Outcome.produced, Work.rooted]
      · split <;> simp [Outcome.produced, Work.rooted]

theorem writeFlushed_rootless (s : ContextCore) (batch : Batch) :
    ∀ w ∈ (s.writeFlushed batch).produced, w.rooted = false := by
  unfold writeFlushed
  split
  · intro w member
    simp only [Outcome.produced, List.append_nil] at member
    rcases List.mem_append.mp member with stops | kicks
    · exact rootless_stops _ w stops
    · rw [List.mem_singleton.mp kicks]
      rfl
  · simpa [Outcome.produced] using retire_rootless false _

end ContextCore

theorem Section.Runs.spawns {s : ContextCore} {sec : Section} {o : Outcome}
    (runs : sec.Runs s o) {w : Work}
    (member : w ∈ o.produced) (rooted : w.rooted = true) : Section.Spawns s sec w := by
  have plain : w.rooted = false → Section.Spawns s sec w := fun free => by simp [free] at rooted
  cases runs with
  | submit tag request addr callbackPath =>
    rw [List.mem_singleton.mp member]
    exact .submit tag request addr callbackPath
  | writeError batch ec =>
    rw [List.mem_singleton.mp member]
    exact .writeError batch ec
  | writeFailed ec retired =>
    cases gone : s.abandoned with
    | true =>
      simp only [ContextCore.writeFailed, gone, Outcome.produced, if_true, List.append_nil] at member
      rcases List.mem_pair.mp member with rfl | rfl <;> simp [Work.rooted] at rooted
    | false =>
      simp only [ContextCore.writeFailed, gone, Outcome.produced, Bool.false_eq_true, if_false,
        List.append_nil] at member
      rw [List.mem_singleton.mp member]
      exact .writeFailed ec retired gone
  | writeDone batch =>
    cases gone : s.abandoned with
    | true =>
      simp only [ContextCore.onWriteDone, gone, Outcome.produced, if_true, List.append_nil] at member
      rw [List.mem_singleton.mp member]
      exact .writeDone batch gone
    | false => simp_all [ContextCore.onWriteDone, Outcome.produced, Work.rooted]
  | onReadFailed ec =>
    rw [List.mem_singleton.mp member]
    exact .onReadFailed ec _
  | readLost =>
    simp only [ContextCore.readLost, Outcome.produced, ContextCore.connectionLost_armed,
      List.append_nil] at member
    rcases List.mem_append.mp member with lost | stop
    · exact plain (s.connectionLost_rootless _ w lost)
    · rw [List.mem_singleton.mp stop]
      exact .readLost
  | writeLost ec retired =>
    simp only [ContextCore.writeLost, Outcome.produced, ContextCore.connectionLost_armed,
      List.append_nil] at member
    rcases List.mem_append.mp member with lost | rest
    · rcases List.mem_append.mp lost with lost | fails
      · exact plain (s.connectionLost_rootless _ w lost)
      · exact plain (ContextCore.rootless_fails _ _ w fails)
    · rcases List.mem_pair.mp rest with rfl | rfl <;> simp [Work.rooted] at rooted
  | connectionLost ec =>
    simp only [Outcome.produced, ContextCore.connectionLost_armed, List.append_nil] at member
    exact plain (s.connectionLost_rootless _ w member)
  | cancel tag => exact plain (s.cancelWith_rootless _ _ w member)
  | requestStop op =>
    exact plain ((s.modify op fun c => { c with stopSeen := true }).cancelWith_rootless _ _ w member)
  | readLoop texts => exact plain (s.readLoop_rootless texts w member)
  | writeFlushed batch => exact plain (s.writeFlushed_rootless batch w member)
  | armWrite batch =>
    unfold ContextCore.armWrite at member
    split at member
    · simp only [Outcome.produced, List.append_nil] at member
      exact plain (ContextCore.retire_rootless _ _ w member)
    · rw [List.mem_singleton.mp member] at rooted
      simp [Work.rooted] at rooted
  | enqueueOperation op post =>
    unfold ContextCore.enqueueOperation at member
    split at member
    · split at member
      · simp only [Outcome.produced, List.append_nil] at member
        exact plain (ContextCore.rootless_stops _ w member)
      · cases post <;> simp_all [Outcome.produced, Work.rooted]
    · simp only [Outcome.produced, List.append_nil] at member
      rcases List.mem_pair.mp member with rfl | rfl <;> simp [Work.rooted] at rooted
  | close =>
    unfold ContextCore.close at member
    split at member
    · simp [Outcome.produced] at member
    · simp only [Outcome.produced, List.append_nil] at member
      rcases List.mem_append.mp member with fails | rest
      · exact plain (ContextCore.rootless_fails _ _ w fails)
      · rcases List.mem_pair.mp rest with rfl | rfl <;> simp [Work.rooted] at rooted
  | abandon =>
    unfold ContextCore.abandon at member
    split at member
    · simp [Outcome.produced] at member
    · simp only [Outcome.produced, List.append_nil] at member
      rcases List.mem_pair.mp member with rfl | rfl <;> simp [Work.rooted] at rooted
  | reading choice result =>
    unfold ContextCore.readReceiver at member
    split at member
    · split at member <;> simp_all [Outcome.produced, Work.rooted]
    · simp_all [Outcome.produced, Work.rooted]
  | flush | postKick =>
    unfold ContextCore.postKick at member
    split at member <;> simp_all [Outcome.produced, Work.rooted]
  | kick =>
    unfold ContextCore.kick at member
    split at member
    · simp [Outcome.produced] at member
    · simp only at member
      split at member <;> simp_all [Outcome.produced, Work.rooted]
  | armRead =>
    unfold ContextCore.armRead at member
    split at member <;> simp_all [Outcome.produced, Work.rooted]
  | rearm =>
    unfold ContextCore.rearm at member
    split at member <;> simp_all [Outcome.produced, Work.rooted]
  | kickGate =>
    unfold ContextCore.kickGate at member
    cases gone : s.abandoned <;> simp_all [Outcome.produced, Work.rooted]
  | kickScheduled | kickRefused =>
    simp_all [ContextCore.kickReceiver, Outcome.produced, Work.rooted]
  | routeUntagged r => simp at member
  | _ => simp_all [Outcome.produced, Work.rooted, ContextCore.writeQuiet, ContextCore.readStop]

/-- The latches are the tokens: as many writes and reads are under way as the latches say. The
    phase only moves on, and an abandoned core is not open. -/
structure Latched (core : ContextCore) (pending : List Work) : Prop where
  write : (batchesOf pending).length = if core.writeInFlight then 1 else 0
  read : readsOf pending = if core.readRunning then 1 else 0
  closed : core.phase = .closed → core.writeInFlight = false ∧ core.readRunning = false
  abandoned : core.abandoned = true → core.phase ≠ .opened

namespace Latched

variable {core : ContextCore} {pending : List Work}

theorem permuted {after : List Work} (perm : pending.Perm after) (latched : Latched core pending) :
    Latched core after where
  write := by rw [← latched.write, batchesOf, batchesOf, (perm.filterMap Work.batch?).length_eq]
  read := by rw [← latched.read, readsOf, readsOf, perm.countP_eq]
  closed := latched.closed
  abandoned := latched.abandoned

theorem initial : Latched {} [.armRead] := ⟨rfl, rfl, by simp, by simp⟩

theorem preserved {sec : Section} {others : List Work} {o : Outcome} (runs : sec.Runs core o)
    (consumed : pending.Perm (sec.consumed ++ others)) (latched : Latched core pending) :
    Latched o.core (o.produced ++ others) := by
  obtain ⟨write, read, closed, abandoned⟩ := latched.permuted consumed
  simp only [batchesOf_append, readsOf_append, List.length_append] at write read
  cases runs.controls with
  | idle sec o control batches reads =>
    refine ⟨?_, ?_, ?_, ?_⟩
    · rw [batchesOf_append, List.length_append, batches, control.writeInFlight, write]
    · rw [readsOf_append, reads, control.readRunning, read]
    · rw [control.phase, control.writeInFlight, control.readRunning]
      exact closed
    · rw [control.abandoned, control.phase]
      exact abandoned
  | suspend =>
    refine ⟨?_, ?_, closed, abandoned⟩
    · simpa [Section.consumed, Outcome.produced] using write
    · simpa [Section.consumed, Outcome.produced] using read
  | teardown sec o running phase gone writing reading suspended transport batches reads =>
    refine ⟨?_, ?_, ?_, ?_⟩
    · rw [batchesOf_append, List.length_append, batches, writing, write]
    · rw [readsOf_append, reads, reading, read]
    · simp [phase]
    · simp [phase]
  | finish draining readQuiet writeQuiet =>
    refine ⟨?_, ?_, fun _ => ⟨writeQuiet, readQuiet⟩, by simp⟩
    · simpa [Section.consumed, Work.batch?, Outcome.produced] using write
    · simpa [Section.consumed, Work.reads, Outcome.produced] using read
  | kick opened idle =>
    have agrees := ContextCore.drain_agrees core.writeQueue core.newDrain
    have phase : (core.newDrain.drain core.writeQueue).1.phase = core.phase := agrees.phase
    refine ⟨?_, ?_, ?_, ?_⟩
    · have none : batchesOf others = [] := by simpa [Section.consumed, Work.batch?, idle] using write
      simp [Outcome.produced, Work.batch?, none]
    · have reading : (core.newDrain.drain core.writeQueue).1.readRunning = core.readRunning :=
        agrees.readRunning
      simpa [Section.consumed, Work.reads, Outcome.produced, reading] using read
    · simp [phase, opened]
    · have gone : (core.newDrain.drain core.writeQueue).1.abandoned = core.abandoned := agrees.abandoned
      simpa [phase, gone] using abandoned
  | armWrite batch opened present =>
    refine ⟨?_, ?_, closed, abandoned⟩
    · simpa [Section.consumed, Work.batch?, Outcome.produced, Nat.add_comm] using write
    · simpa [Section.consumed, Work.reads, Outcome.produced] using read
  | writeEnd sec o batch control before after readsBefore readsAfter =>
    have latch : core.writeInFlight = true := by
      by_contra off
      simp [before, off] at write
    simp only [before, latch, List.length_singleton, if_true, Nat.add_eq_left,
      List.length_eq_zero_iff] at write
    refine ⟨?_, ?_, ?_, ?_⟩
    · have off : o.core.writeInFlight = false := control.writeInFlight
      simp [after, off, write]
    · have reading : o.core.readRunning = core.readRunning := control.readRunning
      simpa [readsBefore, readsAfter, reading] using read
    · intro phase
      have before := closed (control.phase ▸ phase)
      simp [latch] at before
    · rw [control.abandoned, control.phase]
      exact abandoned
  | armRead opened present unsuspended =>
    refine ⟨?_, ?_, closed, abandoned⟩
    · simpa [Section.consumed, Work.batch?, Outcome.produced] using write
    · simpa [Section.consumed, Work.reads, Outcome.produced, Nat.add_comm] using read
  | unwindRead unwinds =>
    have latch : core.readRunning = true := by
      by_contra off
      simp [Section.consumed, Work.reads, off] at read
    have none : readsOf others = 0 := by simpa [Section.consumed, Work.reads, latch] using read
    have writes : (batchesOf others).length = if core.writeInFlight then 1 else 0 := by
      simpa [Section.consumed, Work.batch?] using write
    have running : core.phase ≠ .closed := by
      intro phase
      simpa [latch] using (closed phase).2
    unfold ContextCore.maybeFinishClose
    split
    · rename_i quiet
      refine ⟨?_, ?_, fun _ => ⟨quiet.2.2, rfl⟩, by simp⟩
      · simpa [Outcome.produced] using writes
      · simpa [Outcome.produced] using none
    · refine ⟨?_, ?_, fun phase => absurd phase running, abandoned⟩
      · simpa [Outcome.produced] using writes
      · simpa [Outcome.produced] using none
  | readEnd sec o ends control batchesBefore batchesAfter before after =>
    have latch : core.readRunning = true := by
      by_contra off
      simp [before, off] at read
    simp only [before, latch, if_true, Nat.add_eq_left] at read
    refine ⟨?_, ?_, ?_, ?_⟩
    · have writing : o.core.writeInFlight = core.writeInFlight := control.writeInFlight
      simpa [batchesBefore, batchesAfter, writing] using write
    · have off : o.core.readRunning = false := control.readRunning
      simp [after, off, read]
    · intro phase
      have before := closed (control.phase ▸ phase)
      simp [latch] at before
    · rw [control.abandoned, control.phase]
      exact abandoned

theorem of_run {guard : ContextCore → List Work → Section → Prop} {s : System}
    (run : GuardedRun guard s) :
    Latched s.core s.pending :=
  run.invariant Latched (fun _ _ _ perm latched => latched.permuted perm) initial
    fun _ _ _ _ _ consumed latched _ runs => latched.preserved runs consumed

theorem no_batch (latched : Latched core pending)
    (quiet : core.writeInFlight = false) : batchesOf pending = [] := by
  have none := latched.write
  simpa [quiet] using none

end Latched

end Bkmail
