import Bkmail.Context.Frames

namespace Bkmail

/-- Cells that differ at most in what the wire does not depend on: the one-shot guard, the stop
    flags and the absorbed data. A stopped cell stays stopped. -/
structure Operation.SameWire (before after : Operation) : Prop extends before.Fixed after where
  command : after.command = before.command
  segmentStaged : after.segmentStaged = before.segmentStaged
  hasWritten : after.hasWritten = before.hasWritten
  detached : after.detached = before.detached
  stopped : before.stopped = true → after.stopped = true

theorem Operation.SameWire.refl (op : Operation) : op.SameWire op := ⟨.refl op, rfl, rfl, rfl, rfl, id⟩

theorem Operation.SameWire.trans {a b c : Operation} (first : a.SameWire b) (second : b.SameWire c) :
    a.SameWire c :=
  ⟨first.toFixed.trans second.toFixed, second.command.trans first.command,
    second.segmentStaged.trans first.segmentStaged, second.hasWritten.trans first.hasWritten,
    second.detached.trans first.detached, second.stopped ∘ first.stopped⟩

namespace Operation.SameWire

variable {c d : Operation} (same : c.SameWire d)
include same

theorem isWritten : d.isWritten = c.isWritten := by
  simp only [Operation.isWritten, same.command, same.segmentStaged]

theorem nextSegment : d.nextSegment = c.nextSegment := by
  simp only [Operation.nextSegment, same.command, same.segmentStaged]

theorem awaitsContinuation : d.awaitsContinuation = c.awaitsContinuation := by
  simp only [Operation.awaitsContinuation, same.command]

theorem blocksPipeline : d.blocksPipeline = c.blocksPipeline := by
  simp only [Operation.blocksPipeline, same.command]

end Operation.SameWire

def Event.ofCell : Event → Bool
  | .flushCalled | .enqueued _ | .staged .. | .segmentFlushed .. | .continued _ | .terminal .. => true
  | _ => false

namespace ContextCore

/-- What no section changes but the few that act on cells: no tag is taken, no cell is made or
    disposed, staged, flushed, continued or ended, and the queue only loses cells. -/
structure Quiet (s t : ContextCore) : Prop where
  made : t.made = s.made
  live : t.live = s.live
  drains : t.drains = s.drains
  writeStaging : t.writeStaging = s.writeStaging
  queue : t.writeQueue.Sublist s.writeQueue
  cells : ∀ op, (s.cell op).SameWire (t.cell op)
  log : ∃ events, t.log = s.log ++ events ∧ ∀ event ∈ events, event.ofCell = false
  tags : t.tags = s.tags ∧ t.tagCounter = s.tagCounter

theorem Quiet.refl (s : ContextCore) : s.Quiet s :=
  ⟨rfl, rfl, rfl, rfl, .refl _, fun _ => .refl _, ⟨[], by simp, by simp⟩, rfl, rfl⟩

theorem Quiet.trans {s t u : ContextCore} (first : s.Quiet t) (second : t.Quiet u) : s.Quiet u where
  made := second.made.trans first.made
  live := second.live.trans first.live
  drains := second.drains.trans first.drains
  writeStaging := second.writeStaging.trans first.writeStaging
  queue := second.queue.trans first.queue
  cells op := (first.cells op).trans (second.cells op)
  log := by
    obtain ⟨earlier, logged, inert⟩ := first.log
    obtain ⟨later, logged', inert'⟩ := second.log
    refine ⟨earlier ++ later, by rw [logged', logged, List.append_assoc], ?_⟩
    intro event member
    rcases List.mem_append.mp member with member | member
    · exact inert event member
    · exact inert' event member
  tags := ⟨second.tags.1.trans first.tags.1, second.tags.2.trans first.tags.2⟩

theorem Quiet.of_eq {s t : ContextCore} (made : t.made = s.made) (live : t.live = s.live)
    (drains : t.drains = s.drains) (writeStaging : t.writeStaging = s.writeStaging)
    (queue : t.writeQueue.Sublist s.writeQueue) (cell : t.cell = s.cell) (log : t.log = s.log)
    (tags : t.tags = s.tags ∧ t.tagCounter = s.tagCounter) : s.Quiet t :=
  ⟨made, live, drains, writeStaging, queue, fun op => cell ▸ .refl _,
    ⟨[], by simp [log], by simp⟩, tags⟩

theorem unregister_quiet (s : ContextCore) (tag : Tag) : s.Quiet (s.unregister tag) :=
  .of_eq rfl rfl rfl rfl (.refl _) rfl rfl ⟨rfl, rfl⟩

theorem unlatchWrite_quiet (s : ContextCore) : s.Quiet s.unlatchWrite :=
  .of_eq rfl rfl rfl rfl (.refl _) rfl rfl ⟨rfl, rfl⟩

theorem unlatchRead_quiet (s : ContextCore) : s.Quiet s.unlatchRead :=
  .of_eq rfl rfl rfl rfl (.refl _) rfl rfl ⟨rfl, rfl⟩

theorem emit_quiet (s : ContextCore) (events : List Event)
    (inert : ∀ event ∈ events, event.ofCell = false) :
    s.Quiet (s.emit events) :=
  ⟨rfl, rfl, rfl, rfl, .refl _, fun _ => .refl _, ⟨events, rfl, inert⟩, rfl, rfl⟩

theorem modify_quiet (s : ContextCore) (op : OpId) (change : Operation → Operation)
    (same : (s.cell op).SameWire (change (s.cell op))) : s.Quiet (s.modify op change) := by
  refine ⟨rfl, rfl, rfl, rfl, .refl _, fun i => ?_, ⟨[], by simp [modify], by simp⟩, rfl, rfl⟩
  by_cases found : i = op
  · subst found
    simpa [modify] using same
  · simpa [modify, found] using Operation.SameWire.refl (s.cell i)

theorem deliverValue_quiet (s : ContextCore) (op : OpId) (ec : Option ErrorCode) :
    s.Quiet (s.deliverValue op ec) := by
  unfold deliverValue
  split
  · exact .refl s
  · refine Quiet.trans (modify_quiet s op _ ?_) (emit_quiet _ _ (by simp [Event.ofCell]))
    exact ⟨⟨rfl, rfl, rfl, rfl⟩, rfl, rfl, rfl, rfl, id⟩

theorem deliverStopped_quiet (s : ContextCore) (op : OpId) : s.Quiet (s.deliverStopped op) := by
  unfold deliverStopped
  split
  · exact .refl s
  · refine Quiet.trans (modify_quiet s op _ ?_) (emit_quiet _ _ ?_)
    · exact ⟨⟨rfl, rfl, rfl, rfl⟩, rfl, rfl, rfl, rfl, id⟩
    · split <;> simp [Event.ofCell]

theorem maybeFinishClose_quiet (s : ContextCore) : s.Quiet s.maybeFinishClose := by
  unfold maybeFinishClose
  split
  · refine Quiet.trans (emit_quiet s [.descriptorClosed] (by simp [Event.ofCell])) ?_
    exact .of_eq rfl rfl rfl rfl (.refl _) rfl rfl ⟨rfl, rfl⟩
  · exact .refl s

theorem absorb_quiet (r : UntaggedResponse) (s : ContextCore) (p : OpId) : s.Quiet (absorb r s p) := by
  unfold absorb
  split
  · exact emit_quiet s _ (by simp [Event.ofCell])
  · exact modify_quiet s _ _ ⟨⟨rfl, rfl, rfl, rfl⟩, rfl, rfl, rfl, rfl, id⟩

theorem absorbAll_quiet (r : UntaggedResponse) (ops : List OpId) (s : ContextCore) :
    s.Quiet (ops.foldl (absorb r) s) := by
  induction ops generalizing s with
  | nil => exact .refl s
  | cons p ops ih => exact (absorb_quiet r s p).trans (ih _)

theorem routeUntagged_quiet (s : ContextCore) (r : UntaggedResponse) :
    s.Quiet (s.routeUntagged r).core := by
  unfold routeUntagged
  split
  · split
    · exact .refl s
    · exact modify_quiet s _ (·.onUntagged r) ⟨⟨rfl, rfl, rfl, rfl⟩, rfl, rfl, rfl, rfl, id⟩
  · exact absorbAll_quiet r _ s

theorem extract_quiet (s : ContextCore) (p : OpId) : s.Quiet (s.extractFromQueueLocked p).1 := by
  have queue := extract_sublist s p
  rw [extract_eq]
  exact .of_eq rfl rfl rfl rfl queue rfl rfl ⟨rfl, rfl⟩

theorem extractAll_quiet (ops : List OpId) (s : ContextCore) : s.Quiet (s.extractAll ops).1 := by
  have queue := extractAll_sublist ops s
  rw [extractAll_eq]
  exact .of_eq rfl rfl rfl rfl queue rfl rfl ⟨rfl, rfl⟩

theorem postKick_quiet (s : ContextCore) : s.Quiet s.postKick.core := by
  unfold postKick
  split <;> exact .of_eq rfl rfl rfl rfl (.refl _) rfl rfl ⟨rfl, rfl⟩

theorem readReceiver_quiet (s : ContextCore) (result : ReadResult) :
    s.Quiet (s.readReceiver result).core := by
  unfold readReceiver
  split
  · split <;> exact .refl s
  · exact .of_eq rfl rfl rfl rfl (.refl _) rfl rfl ⟨rfl, rfl⟩

theorem onWriteDone_quiet (s : ContextCore) (ec : Option ErrorCode) (batch : Batch) :
    s.Quiet (s.onWriteDone ec batch).core := by
  unfold onWriteDone
  split
  · exact s.unlatchWrite_quiet.trans (extractAll_quiet batch.ops _)
  · exact .refl s

theorem connectionLost_quiet (s : ContextCore) (ec : ErrorCode) :
    s.Quiet (s.connectionLost ec).core := by
  unfold connectionLost
  split
  · exact .refl s
  · refine Quiet.trans (emit_quiet s (if s.readRunning then [.shutdownRead] else []) ?_) ?_
    · split <;> simp [Event.ofCell]
    · exact .of_eq rfl rfl rfl rfl List.filter_sublist rfl rfl ⟨rfl, rfl⟩

theorem armWrite_quiet (s : ContextCore) (batch : Batch) : s.Quiet (s.armWrite batch).core := by
  unfold armWrite
  split
  · exact s.unlatchWrite_quiet.trans (extractAll_quiet batch.ops _)
  · exact emit_quiet s _ (by simp [Event.ofCell])

theorem armRead_quiet (s : ContextCore) : s.Quiet s.armRead.core := by
  unfold armRead
  split
  · exact s.unlatchRead_quiet.trans (maybeFinishClose_quiet _)
  · exact emit_quiet s _ (by simp [Event.ofCell])

theorem rearm_quiet (s : ContextCore) : s.Quiet s.rearm.core := by
  unfold rearm
  split
  · exact .refl s
  · exact .of_eq rfl rfl rfl rfl (.refl _) rfl rfl ⟨rfl, rfl⟩

theorem close_quiet (s : ContextCore) : s.Quiet s.close.core := by
  unfold close
  split
  · exact .refl s
  · refine Quiet.trans (emit_quiet s [.shutdownRead] (by simp [Event.ofCell])) ?_
    exact .of_eq rfl rfl rfl rfl List.filter_sublist rfl rfl ⟨rfl, rfl⟩

theorem abandon_quiet (s : ContextCore) : s.Quiet s.abandon.core := by
  unfold abandon
  split
  · exact .refl s
  · refine Quiet.trans (emit_quiet s [.shutdownRead] (by simp [Event.ofCell])) ?_
    exact .of_eq rfl rfl rfl rfl List.filter_sublist rfl rfl ⟨rfl, rfl⟩

theorem dispatchTagged_quiet (s : ContextCore) (r : TaggedResponse) (rest : List Bytes) :
    s.Quiet (s.dispatchTagged r rest).core := by
  unfold dispatchTagged
  split
  · exact .refl s
  · rename_i p found
    have forgotten : s.Quiet (s.forget r.tag p) := .of_eq rfl rfl rfl rfl (.refl _) rfl rfl ⟨rfl, rfl⟩
    have quiet := forgotten.trans (extract_quiet _ p)
    split
    · rename_i t extracted
      rw [extracted] at quiet
      exact quiet
    · rename_i t op extracted
      rw [extracted] at quiet
      exact quiet

theorem dispatchUntagged_quiet (s : ContextCore) (r : UntaggedResponse) (rest : List Bytes) :
    s.Quiet (s.dispatchUntagged r rest).core := by
  refine Quiet.trans (emit_quiet s ((makeUnsolicitedEvent r).toList.map .unsolicited) ?_) ?_
  · intro event member
    obtain ⟨told, -, rfl⟩ := List.mem_map.mp member
    rfl
  · exact .of_eq rfl rfl rfl rfl (.refl _) rfl rfl ⟨rfl, rfl⟩

theorem Quiet.modify {s t : ContextCore} (quiet : s.Quiet t) (op : OpId)
    (change change' : Operation → Operation)
    (same : (change (s.cell op)).SameWire (change' (t.cell op))) :
    (s.modify op change).Quiet (t.modify op change') := by
  refine ⟨quiet.made, quiet.live, quiet.drains, quiet.writeStaging, quiet.queue, fun i => ?_,
    quiet.log, quiet.tags⟩
  by_cases found : i = op
  · subst found
    simpa [ContextCore.modify] using same
  · simpa [ContextCore.modify, found] using quiet.cells i

theorem Quiet.dispose {s t : ContextCore} (quiet : s.Quiet t) (ops : List OpId) :
    Quiet { s with live := s.live.filter fun op => !ops.contains op } (t.dispose ops) where
  made := quiet.made
  live := congrArg (List.filter _) quiet.live
  drains := quiet.drains
  writeStaging := quiet.writeStaging
  queue := quiet.queue
  cells := quiet.cells
  log := (quiet.trans (emit_quiet t [.disposed ops] (by simp [Event.ofCell]))).log
  tags := quiet.tags

end ContextCore

namespace Section

def attaches (s : ContextCore) : Section → List OpId
  | .call (.submit ..) => [s.made]
  | _ => []

def disposes (s : ContextCore) : Section → List OpId
  | .work (.dispose ops) _ => ops
  | .work (.writeQuiet batch) _ => (s.unlatchWrite.extractAll batch.ops).2
  | _ => []

def ended : Section → List OpId
  | .work (.fail op _) _ | .work (.onTagged op _) _ | .work (.stopScheduled op) _ => [op]
  | _ => []

end Section

/-- The calls that look a tag up to cancel its operation: the tag, and the cell that is expected. -/
def Call.cancels (s : ContextCore) : Call → Option (Tag × Option OpId)
  | .cancel tag => some (tag, none)
  | .requestStop op => some ((s.cell op).tag, some op)
  | _ => none

/-- The few things that sections do to the wire, to the cells and to the heap. The rest of a
    section is quiet. -/
inductive Section.Acts (s : ContextCore) : Section → ContextCore → Prop where
  | nothing (sec : Section) : Acts s sec s
  | allocateTag : Acts s (.call .allocateTag) s.allocateTag
  | flushCall : Acts s (.call .flush) (s.emit [.flushCalled])
  | attach (tag : Tag) (request : Request) (addr : Nat) (callbackPath : Bool) :
      tag ∈ s.tags → (∀ op ∈ s.live, (s.cell op).addr ≠ addr) →
      Acts s (.call (.submit tag request addr callbackPath))
        (s.attach tag request addr callbackPath !callbackPath).core
  | enqueue (op : OpId) (post : Bool) : s.phase = .opened →
      Acts s (.work (.enqueueOperation op post) .go)
        { s.emit [.enqueued op] with writeQueue := s.writeQueue ++ [op] }
  | requestDone (c : Call) (tag : Tag) (expected : Option OpId) (p op : OpId) (idle : IdleCommand) :
      c.cancels s = some (tag, expected) → s.phase = .opened →
      ContextCore.lookup s.registry tag = some p → expected.all (s.sameAddress p) = true →
      s.deref p = some op → (s.cell op).command = .idle idle →
      Acts s (.call c) (s.modify op fun c => { c with command := .idle idle.done })
  | detach (c : Call) (tag : Tag) (expected : Option OpId) (p op : OpId) :
      c.cancels s = some (tag, expected) → s.phase = .opened → ContextCore.lookup s.registry tag =
      some p → s.deref p = some op → (s.cell op).isWritten = false →
      Acts s (.call c) (s.modify op Operation.markDetached)
  | dispose (sec : Section) :
      Acts s sec { s with live := s.live.filter fun op => !(sec.disposes s).contains op }
  | terminate (sec : Section) (op : OpId) (call : Terminal) : sec.ended = [op] →
      Acts s sec (s.emit [.terminal op call])
  | onTagged (op : OpId) (r : TaggedResponse) :
      Acts s (.work (.onTagged op r) .go)
        ((s.emit [.terminal op (.tagged r)]).modify op fun c =>
          { c with command := c.command.afterTagged })
  | kick : s.phase = .opened → s.writeInFlight = false →
      Acts s (.work .kick .go) (s.newDrain.drain s.writeQueue).1
  | flush (batch : Batch) : s.phase = .opened →
      Acts s (.work (.writeFlushed batch) .go)
        (s.unlatchWrite.flushLoop batch.number batch.ops).1
  | continuation (text : Bytes) (rest : List Bytes) (r : ContinuationRequest) (p op : OpId) :
      Parser.parse text = some (.continuation r) → s.continuationTarget = some p → s.deref p = some op →
      Acts s (.work (.readLoop (text :: rest)) .go)
      ((s.modify op Operation.onContinuation).emit [.continued op])

namespace ContextCore

theorem enqueueOperation_acts (s : ContextCore) (op : OpId) (post : Bool) :
    ∃ acted, Section.Acts s (.work (.enqueueOperation op post) .go) acted ∧
      acted.Quiet (s.enqueueOperation op post).core := by
  unfold enqueueOperation
  split
  · rename_i opened
    refine ⟨_, .enqueue op post opened, ?_⟩
    have registered :
      Quiet { s.emit [.enqueued op] with writeQueue := s.writeQueue ++ [op] } (s.register op) :=
      .of_eq rfl rfl rfl rfl (.refl _) rfl rfl ⟨rfl, rfl⟩
    split
    · refine registered.trans (Quiet.trans ?_ ((extract_quiet _ op).trans (unregister_quiet _ _)))
      exact modify_quiet _ op _ ⟨⟨rfl, rfl, rfl, rfl⟩, rfl, rfl, rfl, rfl, id⟩
    · exact registered
  · exact ⟨s, .nothing _, .refl s⟩

theorem kick_acts (s : ContextCore) :
    ∃ acted, Section.Acts s (.work .kick .go) acted ∧ acted.Quiet s.kick.core := by
  unfold kick
  split
  · exact ⟨s, .nothing _, .refl s⟩
  · rename_i drains
    simp only [not_or, not_not, Bool.not_eq_true] at drains
    refine ⟨_, .kick drains.1 drains.2, ?_⟩
    simp only
    split
    · exact .refl _
    · exact .of_eq rfl rfl rfl rfl (.refl _) rfl rfl ⟨rfl, rfl⟩

theorem writeFlushed_acts (s : ContextCore) (batch : Batch) :
    ∃ acted, Section.Acts s (.work (.writeFlushed batch) .go) acted ∧
    acted.Quiet (s.writeFlushed batch).core := by
  unfold writeFlushed
  split
  · rename_i opened
    exact ⟨_, .flush batch opened, .refl _⟩
  · exact ⟨s, .nothing _, s.unlatchWrite_quiet.trans (extractAll_quiet batch.ops _)⟩

theorem writeQuiet_acts (s : ContextCore) (batch : Batch) :
    ∃ acted, Section.Acts s (.work (.writeQuiet batch) .go) acted ∧
    acted.Quiet (s.writeQuiet batch).core := by
  have quiet := s.unlatchWrite_quiet.trans (extractAll_quiet batch.ops s.unlatchWrite)
  exact ⟨_, .dispose (.work (.writeQuiet batch) .go), quiet.dispose _⟩

theorem onTagged_acts (s : ContextCore) (op : OpId) (r : TaggedResponse) :
    ∃ acted, Section.Acts s (.work (.onTagged op r) .go) acted ∧ acted.Quiet (s.onTagged op r) := by
  simp only [onTagged]
  split
  · exact ⟨_, .terminate _ op (.tagged r) rfl, deliverStopped_quiet _ _⟩
  · exact ⟨_, .onTagged op r, deliverValue_quiet _ _ _⟩

theorem readLoop_acts (s : ContextCore) (texts : List Bytes) :
    ∃ acted, Section.Acts s (.work (.readLoop texts) .go) acted ∧
    acted.Quiet (s.readLoop texts).core := by
  cases texts with
  | nil => exact ⟨s, .nothing _, .refl s⟩
  | cons text rest =>
    simp only [readLoop, dispatch]
    split
    · exact ⟨s, .nothing _, .refl s⟩
    · exact ⟨s, .nothing _, dispatchTagged_quiet s _ rest⟩
    · exact ⟨s, .nothing _, dispatchUntagged_quiet s _ rest⟩
    · rename_i r parsed
      simp only [dispatchContinuation]
      split
      · exact ⟨s, .nothing _, .refl s⟩
      · rename_i p target
        split
        · refine ⟨s, .nothing _, Quiet.trans ?_ (emit_quiet { s with continuationTarget := none }
            [.dangling p] (by simp [Event.ofCell]))⟩
          exact .of_eq rfl rfl rfl rfl (.refl _) rfl rfl ⟨rfl, rfl⟩
        · rename_i op cell
          exact ⟨_, .continuation text rest r p op parsed target cell,
            .of_eq rfl rfl rfl rfl (.refl _) rfl rfl ⟨rfl, rfl⟩⟩

/-- The ways in which a cancellation ends: the tag is not registered (or not for the expected
    cell), the pointer is followed to a disposed cell, the cell is withdrawn, IDLE takes the
    request, or the cell stays in the queue detached. -/
inductive Cancelled (s : ContextCore) (tag : Tag) (expected : Option OpId) :
    ContextCore × Option OpId × Bool → Prop where
  | refused : Cancelled s tag expected (s, none, false)
  | dangling (p : OpId) : lookup s.registry tag = some p → s.deref p = none →
      Cancelled s tag expected (s.emit [.dangling p], none, false)
  | withdrawn (p op : OpId) : lookup s.registry tag = some p → s.deref p = some op →
      (s.cell op).isStaged = false → (s.cell op).awaitsContinuation = false →
      Cancelled s tag expected
        ((s.extractFromQueueLocked op).1.unregister tag, (s.extractFromQueueLocked op).2, false)
  | done (p op : OpId) (idle : IdleCommand) : lookup s.registry tag = some p →
      expected.all (s.sameAddress p) = true → s.deref p = some op → (s.cell op).command = .idle idle →
      Cancelled s tag expected
        (s.modify op fun _ => { s.cell op with command := .idle idle.done, stopped := true }, none,
          true)
  | detached (p op : OpId) : lookup s.registry tag = some p → s.deref p = some op →
      (s.cell op).isWritten = false →
      Cancelled s tag expected ((s.modify op Operation.markDetached).unregister tag, none, false)

theorem findAndDetachLocked_cancelled (s : ContextCore) (tag : Tag) (expected : Option OpId) :
    s.Cancelled tag expected (s.findAndDetachLocked tag expected) := by
  unfold findAndDetachLocked
  split
  · exact .refused
  · rename_i p found
    split
    · exact .refused
    · rename_i itself
      simp only [detachLocked]
      split
      · rename_i absent
        exact .dangling p found absent
      · rename_i op cell
        split
        · rename_i never
          simp only [Bool.and_eq_true, Bool.not_eq_true'] at never
          exact .withdrawn p op found cell never.1.2 never.2
        · split
          · rename_i cancelled cancels
            obtain ⟨command, done, rfl⟩ := Option.map_eq_some_iff.mp cancels
            cases shape : (s.cell op).command with
            | idle idle =>
              simp only [shape, Command.done?, Option.some.injEq] at done
              subst done
              exact .done p op idle found (by cases expected <;> simp_all) cell shape
            | _ => simp [shape, Command.done?] at done
          · split
            · rename_i written
              simp only [Operation.isWritten, Bool.and_eq_true, Bool.not_eq_true'] at written
              exact .withdrawn p op found cell written.1.1 written.1.2
            · rename_i unwritten
              exact .detached p op found cell (Bool.not_eq_true _ ▸ unwritten)

theorem cancelWith_acts {s t : ContextCore} (quiet : s.Quiet t) (phase : t.phase = s.phase)
    (registry : t.registry = s.registry) (deref : ∀ p, t.deref p = s.deref p) (c : Call)
    (tag : Tag) (expected : Option OpId) (cancels : c.cancels s = some (tag, expected)) :
    ∃ acted, Section.Acts s (.call c) acted ∧ acted.Quiet (t.cancelWith tag expected).core := by
  unfold cancelWith
  split
  · exact ⟨s, .nothing _, quiet⟩
  · rename_i opened
    rw [phase, not_not] at opened
    have cancelled := findAndDetachLocked_cancelled t tag expected
    generalize t.findAndDetachLocked tag expected = result at cancelled
    cases cancelled with
    | refused => exact ⟨s, .nothing _, quiet⟩
    | dangling p found absent =>
        exact ⟨s, .nothing _, quiet.trans (emit_quiet t _ (by simp [Event.ofCell]))⟩
    | withdrawn p op found cell =>
      exact ⟨s, .nothing _, quiet.trans ((extract_quiet t op).trans (unregister_quiet _ tag))⟩
    | done p op idle found itself cell shape =>
      rw [registry] at found
      rw [deref] at cell
      have itself : expected.all (s.sameAddress p) = true := by
        cases expected with
        | none => rfl
        | some q => simpa [sameAddress, (quiet.cells p).addr, (quiet.cells q).addr] using itself
      have same := quiet.cells op
      rw [same.command] at shape
      refine ⟨_, .requestDone c tag expected p op idle cancels opened found itself cell shape,
        quiet.modify op _
        (fun _ => { t.cell op with command := .idle idle.done, stopped := true }) ?_⟩
      exact ⟨⟨same.addr, same.tag, same.request, same.callbackPath⟩, rfl, same.segmentStaged,
        same.hasWritten, same.detached, fun _ => rfl⟩
    | detached p op found cell unwritten =>
      rw [registry] at found
      rw [deref] at cell
      have same := quiet.cells op
      rw [same.isWritten] at unwritten
      refine ⟨_, .detach c tag expected p op cancels opened found cell unwritten, ?_⟩
      refine (quiet.modify op _ Operation.markDetached ?_).trans (unregister_quiet _ tag)
      exact ⟨⟨same.addr, same.tag, same.request, same.callbackPath⟩, same.command,
        same.segmentStaged, same.hasWritten, rfl, same.stopped⟩

theorem requestStop_acts (s : ContextCore) (op : OpId) :
    ∃ acted, Section.Acts s (.call (.requestStop op)) acted ∧ acted.Quiet (s.requestStop op).core := by
  have quiet : s.Quiet (s.modify op fun c => { c with stopSeen := true }) :=
    modify_quiet s op _ ⟨⟨rfl, rfl, rfl, rfl⟩, rfl, rfl, rfl, rfl, id⟩
  refine cancelWith_acts quiet rfl rfl (fun p => ?_) _ _ _ rfl
  have same :
    ∀ q, (s.modify op fun c => { c with stopSeen := true }).sameAddress p q = s.sameAddress p q :=
    fun q => by simp only [sameAddress, (quiet.cells p).addr, (quiet.cells q).addr]
  exact congrArg (s.live.find? ·) (funext same)

end ContextCore

theorem Section.Runs.acts {s : ContextCore} {sec : Section} {o : Outcome} (runs : sec.Runs s o) :
    ∃ acted, Section.Acts s sec acted ∧ acted.Quiet o.core := by
  cases runs with
  | allocateTag => exact ⟨_, .allocateTag, .refl _⟩
  | submit tag request addr callbackPath allocated fresh =>
    exact ⟨_, .attach tag request addr callbackPath allocated fresh, .refl _⟩
  | cancel tag => exact ContextCore.cancelWith_acts (.refl s) rfl rfl (fun _ => rfl) _ tag none rfl
  | requestStop op => exact s.requestStop_acts op
  | enqueueOperation op post => exact s.enqueueOperation_acts op post
  | onTagged op r => exact s.onTagged_acts op r
  | dispose ops =>
      exact ⟨_, .dispose (.work (.dispose ops) .go), (ContextCore.Quiet.refl s).dispose ops⟩
  | kick => exact s.kick_acts
  | writeQuiet batch => exact s.writeQuiet_acts batch
  | writeFlushed batch => exact s.writeFlushed_acts batch
  | readLoop texts => exact s.readLoop_acts texts
  | flush => exact ⟨_, .flushCall, (s.emit _).postKick_quiet⟩
  | close => exact ⟨s, .nothing _, s.close_quiet⟩
  | abandon => exact ⟨s, .nothing _, s.abandon_quiet⟩
  | reading choice result => exact ⟨s, .nothing _, s.readReceiver_quiet result⟩
  | writeDone batch => exact ⟨s, .nothing _, s.onWriteDone_quiet none batch⟩
  | writeError batch ec => exact ⟨s, .nothing _, s.onWriteDone_quiet (some ec) batch⟩
  | stopScheduled op => exact ⟨_, .terminate _ op .stopped rfl, ContextCore.deliverStopped_quiet _ _⟩
  | postKick => exact ⟨s, .nothing _, s.postKick_quiet⟩
  | fail op ec => exact ⟨_, .terminate _ op (.fail ec) rfl, ContextCore.deliverValue_quiet _ _ _⟩
  | maybeFinishClose => exact ⟨s, .nothing _, s.maybeFinishClose_quiet⟩
  | connectionLost ec => exact ⟨s, .nothing _, s.connectionLost_quiet ec⟩
  | writeLost ec retired => exact ⟨s, .nothing _, s.connectionLost_quiet ec⟩
  | readLost => exact ⟨s, .nothing _, s.connectionLost_quiet _⟩
  | armWrite batch => exact ⟨s, .nothing _, s.armWrite_quiet batch⟩
  | armRead => exact ⟨s, .nothing _, s.armRead_quiet⟩
  | routeUntagged r => exact ⟨s, .nothing _, s.routeUntagged_quiet r⟩
  | rearm => exact ⟨s, .nothing _, s.rearm_quiet⟩
  | _ => exact ⟨s, .nothing _, .of_eq rfl rfl rfl rfl (.refl _) rfl rfl ⟨rfl, rfl⟩⟩

namespace Section

theorem Acts.fixed {s t : ContextCore} {sec : Section} (acts : sec.Acts s t) {op : OpId}
    (made : op < s.made) :
    (s.cell op).Fixed (t.cell op) := by
  cases acts with
  | nothing | allocateTag => exact .refl _
  | attach =>
    rw [show (s.attach _ _ _ _ _).core.cell op = s.cell op
      from Function.update_of_ne (Nat.ne_of_lt made) _ _]
    exact .refl _
  | enqueue | flushCall | dispose | terminate => exact .refl _
  | requestDone c tag expected p q idle =>
    exact (s.modify_agrees q (fun c => { c with command := .idle idle.done }) fun _ =>
      ⟨rfl, rfl, rfl, rfl⟩).cells op
  | detach c tag expected p q =>
      exact (s.modify_agrees q Operation.markDetached fun _ => ⟨rfl, rfl, rfl, rfl⟩).cells op
  | onTagged q r =>
    exact (s.modify_agrees q (fun c => { c with command := c.command.afterTagged })
      fun _ => ⟨rfl, rfl, rfl, rfl⟩).cells op
  | kick => exact (ContextCore.drain_agrees s.writeQueue s.newDrain).cells op
  | flush batch => exact (ContextCore.flushLoop_agrees batch.number batch.ops s.unlatchWrite).cells op
  | continuation text rest r p q =>
    exact (s.modify_agrees q Operation.onContinuation fun _ => ⟨rfl, rfl, rfl, rfl⟩).cells op

theorem Acts.heap {s t : ContextCore} {sec : Section} (acts : sec.Acts s t)
    (attaches : sec.attaches s = [])
    (disposes : sec.disposes s = []) : t.made = s.made ∧ t.live = s.live := by
  cases acts with
  | attach => simp [Section.attaches] at attaches
  | dispose => simp [disposes]
  | kick =>
    have agrees := ContextCore.drain_agrees s.writeQueue s.newDrain
    exact ⟨agrees.made, agrees.live⟩
  | flush batch =>
    have agrees := ContextCore.flushLoop_agrees batch.number batch.ops s.unlatchWrite
    exact ⟨agrees.made, agrees.live⟩
  | _ => exact ⟨rfl, rfl⟩

theorem Runs.heap {s : ContextCore} {sec : Section} {o : Outcome} (runs : sec.Runs s o) :
    o.core.made = s.made + (sec.attaches s).length ∧
      o.core.live = (s.live ++ sec.attaches s).filter fun op => !(sec.disposes s).contains op := by
  obtain ⟨acted, acts, quiet⟩ := runs.acts
  have other : sec.attaches s = [] → sec.disposes s = [] →
    o.core.made = s.made ∧ o.core.live = s.live :=
    fun attaches disposes =>
      ⟨quiet.made.trans (acts.heap attaches disposes).1,
        quiet.live.trans (acts.heap attaches disposes).2⟩
  cases runs with
  | submit => simp [attaches, disposes, ContextCore.attach]
  | dispose ops => simp [attaches, disposes, ContextCore.dispose]
  | writeQuiet batch =>
    have quiet := ContextCore.extractAll_quiet batch.ops s.unlatchWrite
    simp [attaches, disposes, ContextCore.writeQuiet, ContextCore.dispose, quiet.made, quiet.live]
  | _ =>
    obtain ⟨made, live⟩ := other rfl rfl
    refine ⟨made, live.trans ?_⟩
    simp [attaches, disposes]

theorem Runs.fixed {s : ContextCore} {sec : Section} {o : Outcome} (runs : sec.Runs s o) {op : OpId}
    (made : op < s.made) : (s.cell op).Fixed (o.core.cell op) := by
  obtain ⟨acted, acts, quiet⟩ := runs.acts
  exact (acts.fixed made).trans (quiet.cells op).toFixed

end Section

end Bkmail
