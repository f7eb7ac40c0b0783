import Bkmail.Context.Replies

namespace Bkmail

def Event.outcome? : Event → Option (OpId × Delivery)
  | .delivered op outcome => some (op, outcome)
  | _ => none

def outcomes (log : List Event) : List (OpId × Delivery) := log.filterMap Event.outcome?

@[simp] theorem outcomes_append (before after : List Event) :
    outcomes (before ++ after) = outcomes before ++ outcomes after := by
  simp [outcomes]

theorem outcomes_nil {events : List Event} (none : ∀ event ∈ events, event.outcome? = none) :
    outcomes events = [] :=
  List.filterMap_eq_nil_iff.mpr none

theorem mem_outcomes {log : List Event} {op : OpId} {outcome : Delivery} :
    (op, outcome) ∈ outcomes log ↔ .delivered op outcome ∈ log := by
  constructor
  · intro member
    obtain ⟨event, logged, found⟩ := List.mem_filterMap.mp member
    cases event <;> simp_all [Event.outcome?]
  · exact fun logged => List.mem_filterMap.mpr ⟨_, logged, rfl⟩

/-- What a section completes a handler or a receiver with: `fail` and a tagged reply go to the value
    channel, but for a stopped cell; a stop goes to the stopped channel, which a handler has not. -/
def Section.outcomes (s : ContextCore) : Section → List (OpId × Delivery)
  | .work (.fail op ec) _ => if (s.cell op).finished then [] else [(op, .value (some ec))]
  | .work (.onTagged op r) _ =>
    if (s.cell op).finished then []
    else if (s.cell op).stopped then (if (s.cell op).callbackPath then [] else [(op, .stopped)])
    else [(op, .value (mapStatusToEc r.status))]
  | .work (.stopScheduled op) _ =>
    if (s.cell op).finished then [] else if (s.cell op).callbackPath then [] else [(op, .stopped)]
  | _ => []

namespace ContextCore

@[simp] theorem extract_log (s : ContextCore) (p : OpId) :
    (s.extractFromQueueLocked p).1.log = s.log := by
  rw [extract_eq]

@[simp] theorem extractAll_log (s : ContextCore) (ops : List OpId) :
    (s.extractAll ops).1.log = s.log := by
  rw [extractAll_eq]

theorem deliverValue_outcomes (s : ContextCore) (op : OpId) (ec : Option ErrorCode) :
    outcomes (s.deliverValue op ec).log =
      outcomes s.log ++ if (s.cell op).finished then [] else [(op, .value ec)] := by
  unfold deliverValue
  split <;> simp [outcomes, Event.outcome?]

theorem deliverStopped_outcomes (s : ContextCore) (op : OpId) :
    outcomes (s.deliverStopped op).log = outcomes s.log ++
      if (s.cell op).finished then [] else if (s.cell op).callbackPath then []
      else [(op, .stopped)] := by
  unfold deliverStopped
  split
  · simp
  · split <;> simp [outcomes, Event.outcome?]

theorem onTagged_outcomes (s : ContextCore) (op : OpId) (r : TaggedResponse) :
    outcomes (s.onTagged op r).log =
    outcomes s.log ++ Section.outcomes s (.work (.onTagged op r) .go) := by
  have ended : outcomes (s.emit [.terminal op (.tagged r)]).log = outcomes s.log := by
    simp [outcomes, Event.outcome?]
  simp only [onTagged, Section.outcomes]
  split
  · rename_i stopped
    have stopped : (s.cell op).stopped = true := stopped
    rw [deliverStopped_outcomes, ended]
    simp [stopped]
  · rename_i running
    have running : (s.cell op).stopped = false := Bool.not_eq_true _ ▸ running
    rw [deliverValue_outcomes]
    simpa [running, outcomes] using ended

theorem maybeFinishClose_outcomes (s : ContextCore) :
    outcomes s.maybeFinishClose.log = outcomes s.log := by
  unfold maybeFinishClose
  split <;> simp [outcomes, Event.outcome?]

theorem connectionLost_outcomes (s : ContextCore) (ec : ErrorCode) :
    outcomes (s.connectionLost ec).core.log = outcomes s.log := by
  unfold connectionLost
  split
  · rfl
  · simp only [takeCellsLocked, emit_log]
    split <;> simp [outcomes, Event.outcome?]

theorem cancelWith_outcomes (s : ContextCore) (tag : Tag) (expected : Option OpId) :
    outcomes (s.cancelWith tag expected).core.log = outcomes s.log := by
  unfold cancelWith
  split
  · rfl
  · have cancelled := findAndDetachLocked_cancelled s tag expected
    generalize s.findAndDetachLocked tag expected = result at cancelled
    cases cancelled with
    | refused | done | detached => rfl
    | withdrawn => simp
    | dangling => simp [outcomes, Event.outcome?]

theorem enqueueOperation_outcomes (s : ContextCore) (op : OpId) (post : Bool) :
    outcomes (s.enqueueOperation op post).core.log = outcomes s.log := by
  have registered : outcomes (s.register op).log = outcomes s.log := by
    simp [outcomes, Event.outcome?]
  unfold enqueueOperation
  split
  · split
    · simpa [takeStopRequest] using registered
    · exact registered
  · rfl

theorem postKick_outcomes (s : ContextCore) : outcomes s.postKick.core.log = outcomes s.log := by
  unfold postKick
  split <;> rfl

theorem absorbAll_outcomes (r : UntaggedResponse) (ops : List OpId) (s : ContextCore) :
    outcomes (ops.foldl (absorb r) s).log = outcomes s.log := by
  induction ops generalizing s with
  | nil => rfl
  | cons p ops ih =>
    rw [List.foldl_cons, ih]
    unfold absorb
    split <;> simp [outcomes, Event.outcome?]

theorem routeUntagged_outcomes (s : ContextCore) (r : UntaggedResponse) :
    outcomes (s.routeUntagged r).core.log = outcomes s.log := by
  unfold routeUntagged
  split
  · split <;> rfl
  · exact absorbAll_outcomes r _ s

theorem readLoop_outcomes (s : ContextCore) (texts : List Bytes) :
    outcomes (s.readLoop texts).core.log = outcomes s.log := by
  cases texts with
  | nil => rfl
  | cons text rest =>
    simp only [readLoop, dispatch]
    split
    · rfl
    · rw [dispatchTagged_core]
      cases lookup s.registry _ <;> simp
    · rename_i r parsed
      have told : outcomes ((makeUnsolicitedEvent r).toList.map Event.unsolicited) = [] :=
        outcomes_nil fun event member => by
          obtain ⟨event, -, rfl⟩ := List.mem_map.mp member
          rfl
      simp [dispatchUntagged, told]
    · simp only [dispatchContinuation]
      split
      · rfl
      · split <;> simp [outcomes, Event.outcome?]

theorem kick_outcomes (s : ContextCore) : outcomes s.kick.core.log = outcomes s.log := by
  obtain ⟨staged, logged, only⟩ := drain_logs s.writeQueue s.newDrain
  have none : outcomes staged = [] := outcomes_nil fun event member => by
    obtain ⟨op, segment, rfl⟩ := only event member
    rfl
  have drained : outcomes (s.newDrain.drain s.writeQueue).1.log = outcomes s.log := by
    rw [logged, outcomes_append, none, List.append_nil, newDrain_log]
  unfold kick
  split
  · rfl
  · simp only
    split <;> exact drained

theorem writeFlushed_outcomes (s : ContextCore) (batch : Batch) :
    outcomes (s.writeFlushed batch).core.log = outcomes s.log := by
  unfold writeFlushed
  split
  · obtain ⟨flushed, logged, only⟩ := flushLoop_logs batch.number batch.ops s.unlatchWrite
    have none : outcomes flushed = [] := outcomes_nil fun event member => by
      obtain ⟨op, rfl⟩ := only event member
      rfl
    simp [logged, none]
  · simp

end ContextCore

/-- Nobody is told anything but by `fail`, a tagged reply and a posted stop. -/
theorem Section.Runs.outcomes {s : ContextCore} {sec : Section} {o : Outcome} (runs : sec.Runs s o) :
    Bkmail.outcomes o.core.log = Bkmail.outcomes s.log ++ sec.outcomes s := by
  have quiet : sec.outcomes s = [] → Bkmail.outcomes o.core.log = Bkmail.outcomes s.log →
      Bkmail.outcomes o.core.log = Bkmail.outcomes s.log ++ sec.outcomes s :=
      fun none same => by simp [none, same]
  cases runs with
  | fail op ec =>
    rw [ContextCore.fail, ContextCore.deliverValue_outcomes]
    simp [Section.outcomes, Bkmail.outcomes, Event.outcome?]
  | onTagged op r => exact s.onTagged_outcomes op r
  | stopScheduled op =>
    rw [ContextCore.completeStopped, ContextCore.deliverStopped_outcomes]
    simp [Section.outcomes, Bkmail.outcomes, Event.outcome?]
  | flush =>
    refine quiet rfl ?_
    rw [ContextCore.postKick_outcomes]
    simp [Bkmail.outcomes, Event.outcome?]
  | postKick => exact quiet rfl s.postKick_outcomes
  | cancel tag => exact quiet rfl (s.cancelWith_outcomes tag none)
  | requestStop op => exact quiet rfl (ContextCore.cancelWith_outcomes _ _ _)
  | close =>
    refine quiet rfl ?_
    unfold ContextCore.close
    split <;> simp [ContextCore.takeCellsLocked, Bkmail.outcomes, Event.outcome?]
  | abandon =>
    refine quiet rfl ?_
    unfold ContextCore.abandon
    split <;> simp [ContextCore.takeCellsLocked, Bkmail.outcomes, Event.outcome?]
  | reading choice result =>
    refine quiet rfl ?_
    unfold ContextCore.readReceiver
    split
    · split <;> rfl
    · rfl
  | writeError batch ec => exact quiet rfl (by simp [ContextCore.onWriteDone])
  | enqueueOperation op post => exact quiet rfl (s.enqueueOperation_outcomes op post)
  | dispose ops => exact quiet rfl (by simp [ContextCore.dispose, Bkmail.outcomes, Event.outcome?])
  | maybeFinishClose => exact quiet rfl s.maybeFinishClose_outcomes
  | connectionLost ec => exact quiet rfl (s.connectionLost_outcomes ec)
  | writeLost ec retired => exact quiet rfl (s.connectionLost_outcomes ec)
  | readLost => exact quiet rfl (s.connectionLost_outcomes _)
  | kick => exact quiet rfl s.kick_outcomes
  | armWrite batch =>
    refine quiet rfl ?_
    unfold ContextCore.armWrite
    split <;> simp [Bkmail.outcomes, Event.outcome?]
  | writeQuiet batch =>
    refine quiet rfl ?_
    simp [ContextCore.writeQuiet, ContextCore.dispose, Bkmail.outcomes, Event.outcome?]
  | writeFlushed batch => exact quiet rfl (s.writeFlushed_outcomes batch)
  | armRead =>
    refine quiet rfl ?_
    unfold ContextCore.armRead
    split
    · exact s.unlatchRead.maybeFinishClose_outcomes
    · simp [Bkmail.outcomes, Event.outcome?]
  | readLoop texts => exact quiet rfl (s.readLoop_outcomes texts)
  | routeUntagged r => exact quiet rfl (s.routeUntagged_outcomes r)
  | rearm =>
    refine quiet rfl ?_
    unfold ContextCore.rearm
    split <;> rfl
  | _ => exact quiet rfl rfl

def Work.hands : Work → Bool
  | .fail .. | .onTagged .. => true
  | _ => false

def Section.fails (s : ContextCore) : Section → List OpId
  | .call .close =>
      if s.phase = .opened then (s.takeCellsLocked fun c => !c.isWritten && !c.isStaged).2 else []
  | .work (.connectionLost _) _ | .work .readLost _ =>
    if s.phase = .closed then [] else (s.takeCellsLocked fun c => !c.isStaged).2
  | .work (.writeLost _ retired) _ =>
    (if s.phase = .closed then [] else (s.takeCellsLocked fun c => !c.isStaged).2) ++ retired
  | .work (.armWrite batch) _ =>
    if s.phase = .opened ∨ s.abandoned then [] else (s.unlatchWrite.extractAll batch.ops).2
  | .work (.writeFlushed batch) _ =>
      if s.phase = .opened then [] else (s.unlatchWrite.extractAll batch.ops).2
  | .work (.enqueueOperation op _) _ => if s.phase = .opened then [] else [op]
  | _ => []

inductive Section.Hands (s : ContextCore) : Section → Work → Prop where
  | fail (sec : Section) (op : OpId) (ec : ErrorCode) : op ∈ sec.fails s → Hands s sec (.fail op ec)
  | reply (texts : List Bytes) (r : TaggedResponse) (p op : OpId) :
      ContextCore.lookup s.registry r.tag = some p →
      s.queueFind p = some op → Hands s (.work (.readLoop texts) .go) (.onTagged op r)

namespace ContextCore

theorem fails_hand {ops : List OpId} {ec : ErrorCode} {w : Work}
    (member : w ∈ ops.map (Work.fail · ec)) :
    ∃ op ∈ ops, w = .fail op ec := by
  obtain ⟨op, taken, rfl⟩ := List.mem_map.mp member
  exact ⟨op, taken, rfl⟩

theorem connectionLost_hands {s : ContextCore} {ec : ErrorCode} {w : Work}
    (member : w ∈ (s.connectionLost ec).left)
    (hands : w.hands = true) :
    ∃ op ∈ if s.phase = .closed then [] else (s.takeCellsLocked fun c => !c.isStaged).2,
    w = .fail op ec := by
  unfold connectionLost at member
  split at member
  · simp at member
  · rename_i running
    rw [if_neg running]
    rcases List.mem_append.mp member with fails | rest
    · exact fails_hand fails
    · rcases List.mem_pair.mp rest with rfl | rfl <;> simp [Work.hands] at hands

theorem cancelWith_handless {s : ContextCore} {tag : Tag} {expected : Option OpId} {w : Work}
    (member : w ∈ (s.cancelWith tag expected).produced) : w.hands = false := by
  unfold cancelWith at member
  split at member
  · simp [Outcome.produced] at member
  · simp only [Outcome.produced, List.append_nil] at member
    rcases List.mem_append.mp member with kick | stops
    · split at kick
      · rw [List.mem_singleton.mp kick]
        rfl
      · simp at kick
    · obtain ⟨op, -, rfl⟩ := List.mem_map.mp stops
      rfl

theorem dispatchTagged_hands {s : ContextCore} {r : TaggedResponse} {rest : List Bytes} {w : Work}
    (member : w ∈ (s.dispatchTagged r rest).produced) (hands : w.hands = true) :
    ∃ p op, lookup s.registry r.tag = some p ∧ s.queueFind p = some op ∧ w = .onTagged op r := by
  unfold dispatchTagged at member
  split at member
  · simp only [Outcome.produced, List.append_nil, List.mem_singleton] at member
    simp [member, Work.hands] at hands
  · rename_i p found
    cases search : s.queueFind p with
    | none =>
      have absent : (s.forget r.tag p).queueFind p = none := search
      simp only [extractFromQueueLocked, absent, Outcome.produced, List.append_nil,
        List.mem_singleton] at member
      simp [member, Work.hands] at hands
    | some op =>
      have present : (s.forget r.tag p).queueFind p = some op := search
      simp only [extractFromQueueLocked, present, Outcome.produced, List.append_nil, List.mem_cons,
        List.not_mem_nil, or_false] at member
      rcases member with rfl | rfl | rfl
      · exact ⟨p, op, found, search, rfl⟩
      · simp [Work.hands] at hands
      · simp [Work.hands] at hands

theorem readLoop_hands {s : ContextCore} {texts : List Bytes} {w : Work}
    (member : w ∈ (s.readLoop texts).produced)
    (hands : w.hands = true) :
    ∃ r p op, lookup s.registry r.tag = some p ∧ s.queueFind p = some op ∧ w = .onTagged op r := by
  cases texts with
  | nil => simp_all [readLoop, Outcome.produced, Work.hands]
  | cons text rest =>
    simp only [readLoop, dispatch] at member
    split at member
    · simp_all [Outcome.produced, Work.hands]
    · rename_i r parsed
      exact ⟨r, dispatchTagged_hands member hands⟩
    · simp only [dispatchUntagged, Outcome.produced, List.append_nil] at member
      rcases List.mem_pair.mp member with rfl | rfl <;> simp [Work.hands] at hands
    · simp only [dispatchContinuation] at member
      split at member
      · simp_all [Outcome.produced, Work.hands]
      · split at member <;>
        · simp only [Outcome.produced, List.append_nil] at member
          rcases List.mem_pair.mp member with rfl | rfl <;> simp [Work.hands] at hands

end ContextCore

theorem Section.Runs.hands {s : ContextCore} {sec : Section} {o : Outcome}
    (runs : sec.Runs s o) {w : Work}
    (member : w ∈ o.produced) (hands : w.hands = true) : sec.Hands s w := by
  cases runs with
  | cancel tag => simp [ContextCore.cancelWith_handless member] at hands
  | requestStop op => simp [ContextCore.cancelWith_handless member] at hands
  | connectionLost ec =>
    simp only [Outcome.produced, ContextCore.connectionLost_armed, List.append_nil] at member
    obtain ⟨op, taken, rfl⟩ := ContextCore.connectionLost_hands member hands
    exact .fail _ op ec taken
  | readLost =>
    simp only [ContextCore.readLost, Outcome.produced, ContextCore.connectionLost_armed,
      List.append_nil] at member
    rcases List.mem_append.mp member with lost | stop
    · obtain ⟨op, taken, rfl⟩ := ContextCore.connectionLost_hands lost hands
      exact .fail _ op _ taken
    · rw [List.mem_singleton.mp stop] at hands
      simp [Work.hands] at hands
  | writeLost ec retired =>
    simp only [ContextCore.writeLost, Outcome.produced, ContextCore.connectionLost_armed,
      List.append_nil] at member
    rcases List.mem_append.mp member with lost | rest
    · rcases List.mem_append.mp lost with lost | fails
      · obtain ⟨op, taken, rfl⟩ := ContextCore.connectionLost_hands lost hands
        exact .fail _ op ec (List.mem_append_left _ taken)
      · obtain ⟨op, lifted, rfl⟩ := ContextCore.fails_hand fails
        exact .fail _ op ec (List.mem_append_right _ lifted)
    · rcases List.mem_pair.mp rest with rfl | rfl <;> simp [Work.hands] at hands
  | readLoop texts =>
    obtain ⟨r, p, op, found, search, rfl⟩ := ContextCore.readLoop_hands member hands
    exact .reply texts r p op found search
  | close =>
    unfold ContextCore.close at member
    split at member
    · simp [Outcome.produced] at member
    · rename_i opened
      simp only [Outcome.produced, List.append_nil] at member
      rcases List.mem_append.mp member with fails | rest
      · obtain ⟨op, taken, rfl⟩ := ContextCore.fails_hand fails
        refine .fail _ op _ ?_
        rw [Section.fails, if_pos (not_not.mp opened)]
        exact taken
      · rcases List.mem_pair.mp rest with rfl | rfl <;> simp [Work.hands] at hands
  | abandon =>
    unfold ContextCore.abandon at member
    split at member
    · simp [Outcome.produced] at member
    · simp only [Outcome.produced, List.append_nil] at member
      rcases List.mem_pair.mp member with rfl | rfl <;> simp [Work.hands] at hands
  | armWrite batch =>
    unfold ContextCore.armWrite at member
    split at member
    · rename_i torn
      cases gone : s.abandoned with
      | true =>
        simp only [Outcome.produced, ContextCore.retire, gone, if_true, List.nil_append,
          List.append_nil] at member
        rcases List.mem_pair.mp member with rfl | rfl <;> simp [Work.hands] at hands
      | false =>
        simp only [Outcome.produced, ContextCore.retire, gone, Bool.false_eq_true, if_false,
          List.append_nil] at member
        rcases List.mem_append.mp member with fails | rest
        · obtain ⟨op, taken, rfl⟩ := ContextCore.fails_hand fails
          refine .fail _ op _ ?_
          simp only [gone, Bool.false_eq_true, or_false] at torn
          simpa [Section.fails, gone, torn] using taken
        · rcases List.mem_pair.mp rest with rfl | rfl <;> simp [Work.hands] at hands
    · rw [List.mem_singleton.mp member] at hands
      simp [Work.hands] at hands
  | writeFlushed batch =>
    unfold ContextCore.writeFlushed at member
    split at member
    · simp only [Outcome.produced, List.append_nil] at member
      rcases List.mem_append.mp member with stops | kick
      · obtain ⟨op, -, rfl⟩ := List.mem_map.mp stops
        simp [Work.hands] at hands
      · rw [List.mem_singleton.mp kick] at hands
        simp [Work.hands] at hands
    · rename_i torn
      simp only [Outcome.produced, ContextCore.retire, Bool.false_eq_true, if_false,
        List.append_nil] at member
      rcases List.mem_append.mp member with fails | rest
      · obtain ⟨op, taken, rfl⟩ := ContextCore.fails_hand fails
        refine .fail _ op _ ?_
        rw [Section.fails, if_neg torn]
        exact taken
      · rcases List.mem_pair.mp rest with rfl | rfl <;> simp [Work.hands] at hands
  | enqueueOperation op post =>
    unfold ContextCore.enqueueOperation at member
    split at member
    · split at member
      · simp only [Outcome.produced, List.append_nil] at member
        obtain ⟨op, -, rfl⟩ := List.mem_map.mp member
        simp [Work.hands] at hands
      · cases post <;> simp_all [Outcome.produced, Work.hands]
    · rename_i torn
      simp only [Outcome.produced, List.append_nil] at member
      rcases List.mem_pair.mp member with rfl | rfl
      · exact .fail _ op _ (by simp [Section.fails, torn])
      · simp [Work.hands] at hands
  | reading choice result =>
    unfold ContextCore.readReceiver at member
    split at member
    · split at member <;> simp_all [Outcome.produced, Work.hands]
    · simp_all [Outcome.produced, Work.hands]
  | flush | postKick =>
    unfold ContextCore.postKick at member
    split at member <;> simp_all [Outcome.produced, Work.hands]
  | kick =>
    unfold ContextCore.kick at member
    split at member
    · simp [Outcome.produced] at member
    · simp only at member
      split at member <;> simp_all [Outcome.produced, Work.hands]
  | armRead =>
    unfold ContextCore.armRead at member
    split at member <;> simp_all [Outcome.produced, Work.hands]
  | rearm =>
    unfold ContextCore.rearm at member
    split at member <;> simp_all [Outcome.produced, Work.hands]
  | kickGate =>
    unfold ContextCore.kickGate at member
    cases gone : s.abandoned <;> simp_all [Outcome.produced, Work.hands]
  | kickScheduled | kickRefused =>
    simp_all [ContextCore.kickReceiver, Outcome.produced, Work.hands]
  | writeFailed ec retired =>
    cases gone : s.abandoned with
    | true =>
      simp only [ContextCore.writeFailed, gone, Outcome.produced, if_true, List.append_nil] at member
      rcases List.mem_pair.mp member with rfl | rfl <;> simp [Work.hands] at hands
    | false => simp_all [ContextCore.writeFailed, Outcome.produced, Work.hands]
  | writeDone batch =>
    cases gone : s.abandoned <;> simp_all [ContextCore.onWriteDone, Outcome.produced, Work.hands]
  | writeError batch ec => simp_all [ContextCore.onWriteDone, Outcome.produced, Work.hands]
  | routeUntagged r => simp at member
  | _ => simp_all [Outcome.produced, Work.hands, ContextCore.writeQuiet, ContextCore.readStop,
      ContextCore.onReadFailed, ContextCore.attach]

end Bkmail
