import Bkmail.Context.Flushing
import Bkmail.Context.Walls
import Mathlib.Data.List.Sublists

namespace Bkmail

namespace ContextCore

/-- The drain goes past a cell only with the last segment of it, or when nothing behind it can be
    sent. -/
def wholesome (s : ContextCore) : List OpId → Bool
  | [] => true
  | op :: rest =>
    if (s.cell op).isWritten then s.wholesome rest
    else if (s.cell op).nextSegment = [] then (s.cell op).awaitsContinuation || s.wholesome rest
    else if (s.cell op).awaitsContinuation || (s.cell op).blocksPipeline then true
    else if (s.cell op).onSegmentFlushed.isWritten then s.wholesome rest
    else (rest.find? fun q => !(s.cell q).isWritten).all fun q => (s.cell q).parked

/-- The cells ahead of one that the drain gets to are written, or get their last segment sent. -/
theorem reached_wholesome {s : ContextCore} {ops : List OpId} (nodup : ops.Nodup)
    (unstaged : ∀ op ∈ ops, (s.cell op).segmentStaged = false) (wholesome : s.wholesome ops = true) :
    ops.Pairwise fun q op => op ∈ s.reached ops →
      (s.cell q).isWritten = true ∨ q ∈ s.reached ops ∧
      (s.cell q).onSegmentFlushed.isWritten = true := by
  induction ops with
  | nil => exact .nil
  | cons q ops ih =>
    obtain ⟨fresh, nodup⟩ := List.nodup_cons.mp nodup
    have tail := ih nodup fun op member => unstaged op (List.mem_cons_of_mem _ member)
    have other : ∀ op ∈ ops, op ≠ q := fun op member same => fresh (same ▸ member)
    have stops : ∀ {stop : List OpId}, (∀ op ∈ ops, op ∉ stop) →
      (q :: ops).Pairwise fun p op => op ∈ stop → (s.cell p).isWritten = true ∨
      p ∈ stop ∧ (s.cell p).onSegmentFlushed.isWritten = true := fun none =>
      List.pairwise_cons.mpr ⟨fun op member stopped => absurd stopped (none op member),
        List.pairwise_of_forall_mem_list fun _ _ op member stopped => absurd stopped (none op member)⟩
    cases written : (s.cell q).isWritten with
    | true =>
      simp only [ContextCore.wholesome, written, if_true] at wholesome
      simp only [reached, written, if_true]
      exact List.pairwise_cons.mpr ⟨fun op _ _ => .inl written, tail wholesome⟩
    | false =>
      simp only [ContextCore.wholesome, written, Bool.false_eq_true, if_false] at wholesome
      simp only [reached, written, Bool.false_eq_true, if_false]
      by_cases segment : (s.cell q).nextSegment = []
      · have awaits : (s.cell q).awaitsContinuation = true := by
          have unstaged := unstaged q List.mem_cons_self
          by_contra free
          simp_all [Operation.isWritten, Operation.nextSegment, Operation.awaitsContinuation]
        simp only [segment, awaits, if_true]
        exact stops (by simp)
      simp only [segment, if_false] at wholesome ⊢
      by_cases wall : ((s.cell q).awaitsContinuation || (s.cell q).blocksPipeline) = true
      · simp only [wall, if_true]
        exact stops (by simpa using other)
      simp only [wall, if_false, Bool.false_eq_true] at wholesome ⊢
      cases last : (s.cell q).onSegmentFlushed.isWritten with
      | true =>
        simp only [last, if_true] at wholesome
        refine List.pairwise_cons.mpr ⟨fun op _ _ => .inr ⟨List.mem_cons_self, last⟩, ?_⟩
        refine (tail wholesome).imp_of_mem fun {p op} _ member apart found => ?_
        exact (apart ((List.mem_cons.mp found).resolve_left (other op member))).imp_right
          (And.imp_left (List.mem_cons_of_mem q))
      | false =>
        simp only [last, Bool.false_eq_true, if_false] at wholesome
        rw [reached_parked wholesome]
        exact stops (by simpa using other)

end ContextCore

def ContextCore.sent (core : ContextCore) (op : OpId) : List Bytes :=
  stagedSegments (history op core.log)

def ContextCore.segments (core : ContextCore) (op : OpId) : List Bytes :=
  (core.cell op).request.segments (core.cell op).tag

/-- The drain is wholesome, and no command has left the queue with only a part of it sent. -/
def Wholesome (core : ContextCore) (_ : List Work) (sec : Section) : Prop :=
  sec.drains core = true → core.wholesome core.writeQueue = true ∧
    ∀ op ∈ enqueuedOps core.log, op ∉ core.writeQueue → core.sent op ≠ [] →
    core.sent op = core.segments op

instance (core : ContextCore) (pending : List Work) (sec : Section) :
    Decidable (Wholesome core pending sec) :=
  inferInstanceAs (Decidable (_ → _))

/-- What was staged so far, as one stream of segments. -/
def ContextCore.stream (core : ContextCore) : List (OpId × Bytes) := (stagings core.log).map (·.2)

/-- Each command is sent in one piece, in the order of submission, and whole before the next one is
    begun. -/
structure InPieces (core : ContextCore) : Prop where
  stream : core.stream = (enqueuedOps core.log).flatMap fun op => (core.sent op).map (op, ·)
  whole : (enqueuedOps core.log).Pairwise fun q op => core.sent op ≠ [] →
    core.sent q = core.segments q ∨ core.sent q = [] ∧ q ∉ core.writeQueue

namespace ContextCore

theorem sent_stagings (core : ContextCore) (op : OpId) :
    core.sent op = ((stagings core.log).filter fun staging => staging.2.1 == op).map (·.2.2) := by
  unfold sent history stagings stagedSegments
  rw [List.filterMap_filterMap, List.filter_filterMap, List.map_filterMap]
  refine List.filterMap_congr fun event _ => ?_
  cases event with
  | staged number q segment =>
    by_cases own : q = op <;> simp [Event.about, Event.staging?, CellEvent.segment?, own]
  | segmentFlushed | continued =>
    simp only [Event.about, Event.staging?]
    split <;> rfl
  | _ => rfl

theorem Kicked.sent {s t : ContextCore} (kicked : s.Kicked t) (nodup : s.writeQueue.Nodup) (op : OpId) :
    t.sent op = s.sent op ++ if op ∈ s.reached s.writeQueue then [(s.cell op).nextSegment] else [] := by
  have log := history_map op (fun q => .staged (s.drains + 1) q (s.cell q).nextSegment)
    (.staged (s.drains + 1) (s.cell op).nextSegment) ((reached_sublist s s.writeQueue).nodup nodup)
    (if_pos rfl)
    fun q different => if_neg different
  rw [ContextCore.sent, kicked.log, history_append, log, stagedSegments_append]
  split <;> rfl

end ContextCore

def Watched (core : ContextCore) : Prop :=
  ∀ op < core.made, ∃ rendered p, Track (core.cell op) rendered p (history op core.log) ∧
    ∀ segment ∈ rendered.segments, segment ≠ []

namespace Watched

variable {core : ContextCore} {op : OpId}

theorem of_run {s : System} (run : GuardedRun Spared s)
    (other : ∀ op < s.core.made, (s.core.cell op).request.isIdle = false) : Watched s.core := by
  intro op made
  obtain ⟨rendered, p, track⟩ :=
    (Followed.of_run run op made).resolve_left (Request.progress_of_other (other op made) _)
  have stamped := (Stamped.of_run run).filled (ContextCore.tag_stamped made)
  exact ⟨rendered, p, track, (Request.render_initial stamped track.start).filled⟩

theorem segments_eq {rendered p : Progress}
    (track : Track (core.cell op) rendered p (history op core.log)) :
    core.segments op = rendered.segments := by
  simp [ContextCore.segments, Request.segments, track.start]

theorem starts (watched : Watched core) (made : op < core.made) :
    core.sent op <+: core.segments op := by
  obtain ⟨rendered, p, track, -⟩ := watched op made
  rw [segments_eq track, ContextCore.sent, track.staged]
  exact List.take_prefix _ _

theorem written (watched : Watched core) (made : op < core.made)
    (written : (core.cell op).isWritten = true) :
    core.sent op = core.segments op := by
  obtain ⟨rendered, p, track, filled⟩ := watched op made
  exact (track.whole filled written).trans (segments_eq track).symm

theorem incomplete (watched : Watched core) (made : op < core.made)
    (unstaged : (core.cell op).segmentStaged = false)
    (filled : (core.cell op).nextSegment ≠ []) : core.sent op ≠ core.segments op := by
  obtain ⟨rendered, p, track, -⟩ := watched op made
  intro all
  rw [segments_eq track, ContextCore.sent, track.staged, unstaged] at all
  have length := congrArg List.length all
  have ahead : p.emitted < p.unlocked := by
    by_contra past
    exact filled ((track.nextSegment unstaged).trans (if_neg past))
  have bound : p.emitted < rendered.segments.length :=
    track.segments ▸ Nat.lt_of_lt_of_le ahead track.within
  simp only [Bool.false_eq_true, if_false, Nat.add_zero, List.length_take] at length
  omega

theorem last (watched : Watched core) (made : op < core.made)
    (unstaged : (core.cell op).segmentStaged = false)
    (filled : (core.cell op).nextSegment ≠ [])
    (written : (core.cell op).onSegmentFlushed.isWritten = true) :
    core.sent op ++ [(core.cell op).nextSegment] = core.segments op := by
  obtain ⟨rendered, p, track, nonempty⟩ := watched op made
  have flushed := (track.stage unstaged filled 0).flush rfl 0
  have all := flushed.whole nonempty written
  simpa only [ContextCore.sent, segments_eq track, stagedSegments_append, stagedSegments_staged,
    stagedSegments_flushed, List.append_nil] using all

end Watched

namespace InPieces

variable {core : ContextCore} {pending others : List Work} {sec : Section} {o : Outcome}

theorem kicked {t : ContextCore} (grounded : Grounded core pending) (watched : Watched core)
    (idle : core.writeInFlight = false) (wholesome : core.wholesome core.writeQueue = true)
    (left : ∀ op ∈ enqueuedOps core.log, op ∉ core.writeQueue → core.sent op ≠ [] →
    core.sent op = core.segments op)
    (pieces : InPieces core) (kicked : core.Kicked t) (order : enqueuedOps t.log = enqueuedOps core.log)
    (fixed : ∀ op ∈ enqueuedOps core.log, t.segments op = core.segments op) : InPieces t := by
  have nodup := grounded.custody.nodup_queue
  have enlisted := grounded.enlisted
  have reached := core.reached_sublist core.writeQueue
  have unstaged : ∀ op ∈ core.writeQueue, (core.cell op).segmentStaged = false := fun op queued =>
    Sealed.unstaged grounded idle queued
  have sent := kicked.sent nodup
  have missed : ∀ op, op ∉ core.reached core.writeQueue → t.sent op = core.sent op :=
      fun op missed => by
    rw [sent, if_neg missed, List.append_nil]
  have begun : ∀ op ∈ core.reached core.writeQueue, core.sent op ≠ core.segments op := fun op member =>
    watched.incomplete (grounded.queue_made (reached.subset member))
      (unstaged op (reached.subset member))
      (ContextCore.reached_segment member)
  refine ⟨?_, ?_⟩
  · have extended : (enqueuedOps core.log).flatMap (fun op => (t.sent op).map (op, ·)) =
        (enqueuedOps core.log).flatMap (fun op => (core.sent op).map (op, ·)) ++
          (core.reached core.writeQueue).map fun op => (op, (core.cell op).nextSegment) := by
      refine Automaton.flatMap_extend enlisted.nodup (reached.trans enlisted.ordered)
        (fun op _ member => ?_)
        (fun op member => ?_) (pieces.whole.imp fun {q op} apart member => ?_)
      · simp only [missed op member]
      · simp [sent, member]
      · by_contra filled
        rcases apart (by simpa using filled) with all | ⟨-, unqueued⟩
        · exact begun q member all
        · exact unqueued (reached.subset member)
    rw [order, extended, ← pieces.stream]
    simp [ContextCore.stream, kicked.stagings]
  · rw [order]
    refine List.pairwise_iff_forall_sublist.mpr fun {q op} ahead filled => ?_
    have member : q ∈ enqueuedOps core.log := ahead.subset List.mem_cons_self
    rw [fixed q member, kicked.queue]
    by_cases getting : op ∈ core.reached core.writeQueue
    · by_cases queued : q ∈ core.writeQueue
      · left
        have inherit :=
          Automaton.pair_sublist_inherit enlisted.nodup enlisted.ordered ahead queued
          (reached.subset getting)
        have walk :=
          List.pairwise_iff_forall_sublist.mp
          (ContextCore.reached_wholesome nodup unstaged wholesome) inherit
        have made := grounded.queue_made queued
        rcases walk getting with written | ⟨also, last⟩
        · have all := watched.written made written
          rw [missed q fun also => begun q also all, all]
        · rw [sent, if_pos also]
          exact watched.last made (unstaged q queued) (ContextCore.reached_segment also) last
      · rw [missed q fun also => queued (reached.subset also)]
        by_cases none : core.sent q = []
        · exact .inr ⟨none, queued⟩
        · exact .inl (left q member queued none)
    · rw [missed op getting] at filled
      rcases List.pairwise_iff_forall_sublist.mp pieces.whole ahead filled with all | ⟨none, unqueued⟩
      · exact .inl ((missed q fun also => begun q also all).trans all)
      · exact .inr ⟨(missed q fun also => unqueued (reached.subset also)).trans none, unqueued⟩

theorem calm {t : ContextCore} (pieces : InPieces core) (same : stagings t.log = stagings core.log)
    (order : enqueuedOps t.log = enqueuedOps core.log) (queue : t.writeQueue ⊆ core.writeQueue)
    (fixed : ∀ op ∈ enqueuedOps core.log, t.segments op = core.segments op) : InPieces t := by
  have sent : ∀ op, t.sent op = core.sent op := fun op => by
    rw [ContextCore.sent_stagings, same, ← ContextCore.sent_stagings]
  refine ⟨?_, ?_⟩
  · simpa only [ContextCore.stream, same, order, sent] using pieces.stream
  · rw [order]
    refine pieces.whole.imp_of_mem fun {q op} member _ apart filled => ?_
    rw [sent] at filled
    rw [sent, fixed q member]
    exact (apart filled).imp_right (And.imp_right fun unqueued queued => unqueued (queue queued))

theorem entered {t : ContextCore} (pieces : InPieces core) {new : OpId}
    (fresh : new ∉ enqueuedOps core.log)
    (same : stagings t.log = stagings core.log) (unsent : core.sent new = [])
    (order : enqueuedOps t.log = enqueuedOps core.log ++ [new])
    (queue : t.writeQueue ⊆ core.writeQueue ++ [new])
    (fixed : ∀ op ∈ enqueuedOps core.log, t.segments op = core.segments op) : InPieces t := by
  have sent : ∀ op, t.sent op = core.sent op := fun op => by
    rw [ContextCore.sent_stagings, same, ← ContextCore.sent_stagings]
  refine ⟨?_, ?_⟩
  · simpa [ContextCore.stream, same, order, sent, unsent] using pieces.stream
  · rw [order]
    refine List.pairwise_append.mpr ⟨?_, List.pairwise_singleton _ new, ?_⟩
    · refine pieces.whole.imp_of_mem fun {q op} member _ apart filled => ?_
      rw [sent] at filled
      rw [sent, fixed q member]
      refine (apart filled).imp_right (And.imp_right fun unqueued queued => ?_)
      rcases List.mem_append.mp (queue queued) with old | entered
      · exact unqueued old
      · exact fresh (List.mem_singleton.mp entered ▸ member)
    · intro q _ op last filled
      rw [List.mem_singleton.mp last, sent, unsent] at filled
      exact absurd rfl filled

theorem preserved (runs : sec.Runs core o) (consumed : pending.Perm (sec.consumed ++ others))
    (grounded : Grounded core pending) (lived : Lived core pending) (watched : Watched core)
    (wholesome : Wholesome core pending sec) (pieces : InPieces core) : InPieces o.core := by
  have enlisted := grounded.enlisted
  have fixed : ∀ op ∈ enqueuedOps core.log, o.core.segments op = core.segments op := fun op member => by
    have fixed := runs.fixed (enlisted.bound op member)
    simp only [ContextCore.segments, fixed.request, fixed.tag]
  rcases runs.stagings grounded.custody.nodup_queue with ⟨same, -, -⟩ | ⟨rfl, opened, idle, kicked⟩
  · rcases runs.enqueues with ⟨order, lost⟩ | ⟨new, post, rfl, -, order, grown⟩
    · exact pieces.calm same order lost.subset fixed
    · have pends : .enqueueOperation new post ∈ pending :=
        Grounded.consumed_mem consumed List.mem_cons_self
      have unsent : core.sent new =
        [] := by simp [ContextCore.sent, (lived.fresh new post pends).1, stagedSegments]
      have fresh : new ∉ enqueuedOps core.log := fun member => enlisted.once new member post pends
      exact pieces.entered fresh same unsent order grown.subset fixed
  · have order : enqueuedOps o.core.log = enqueuedOps core.log := by
      rcases runs.enqueues with ⟨order, -⟩ | ⟨_, _, enters, -⟩
      · exact order
      · cases enters
    obtain ⟨walk, left⟩ := wholesome (by simp [Section.drains, opened, idle])
    exact pieces.kicked grounded watched idle walk left kicked order fixed

end InPieces

/-- No cell is made where one of the write in flight was, and the drains are wholesome. -/
def Contiguous (core : ContextCore) (pending : List Work) (sec : Section) : Prop :=
  Spared core pending sec ∧ Wholesome core pending sec

instance (core : ContextCore) (pending : List Work) (sec : Section) :
    Decidable (Contiguous core pending sec) :=
  inferInstanceAs (Decidable (_ ∧ _))

theorem InPieces.of_run {s : System} (run : GuardedRun Contiguous s)
    (other : ∀ op < s.core.made, (s.core.cell op).request.isIdle = false) : InPieces s.core := by
  refine run.invariant (fun core _ => (∀ op < core.made, (core.cell op).request.isIdle = false) →
    InPieces core)
    (fun _ _ _ _ pieces => pieces) (fun _ => ⟨by rfl, .nil⟩) ?_ other
  intro s others sec o earlier consumed pieces allowed runs other
  have before : ∀ op < s.core.made, (s.core.cell op).request.isIdle = false := fun op made => by
    rw [← (runs.fixed made).request]
    exact other op (Nat.lt_of_lt_of_le made (runs.heap.1 ▸ Nat.le_add_right _ _))
  have spared : GuardedRun Spared s :=
    earlier.mono fun _ _ allowed sec selected => (allowed sec selected).1
  exact (pieces before).preserved runs consumed (.of_run earlier) (.of_run earlier)
    (.of_run spared before) allowed.2

/-- What was staged is a sequence of whole commands in the order of submission, the last one
    possibly cut short. -/
theorem wire_contiguous {s : System} (run : GuardedRun Contiguous s)
    (other : ∀ op < s.core.made, (s.core.cell op).request.isIdle = false) :
    ∃ ops : List OpId, ops.Sublist (enqueuedOps s.core.log) ∧
      s.core.stream <+: ops.flatMap fun op => (s.core.segments op).map (op, ·) := by
  have pieces := InPieces.of_run run other
  have watched :=
    Watched.of_run (run.mono fun _ _ allowed sec selected => (allowed sec selected).1) other
  rw [pieces.stream]
  refine Automaton.flatMap_prefix (fun op member => ?_) (pieces.whole.imp fun apart filled => ?_)
  · exact (watched.starts ((Enlisted.of_run run).bound op member)).map _
  · exact (apart (by simpa using filled)).imp (congrArg _) fun none => by simp [none.1]

/-- The message of the APPEND goes out ahead of the NOOP. -/
theorem wire_contiguous_append : ∃ s, GuardedRun Contiguous s ∧
    (∀ op < s.core.made, (s.core.cell op).request.isIdle = false) ∧
    s.core.stream.map Prod.fst = [0, 0, 1] ∧ ∃ ops : List OpId, ops.Sublist (enqueuedOps s.core.log) ∧
        s.core.stream <+: ops.flatMap fun op => (s.core.segments op).map (op, ·) := by
  obtain ⟨s, run, here⟩ := GuardedRun.of_trace Contiguous
    (appendContinued ++ [.resume 9 .done, .resume 9 .go, .resume 9 .go])
    (fun s => decide ((∀ op < s.core.made, (s.core.cell op).request.isIdle = false) ∧
      s.core.stream.map Prod.fst = [0, 0, 1])) (by decide)
  obtain ⟨other, staged⟩ := of_decide_eq_true here
  exact ⟨s, run, other, staged, wire_contiguous run other⟩

def appendThenNoop : List Action :=
  together (.append { mailbox := ascii "box", message := ascii "m", literalPlus := true })

/-- The NOOP is staged between the line of the LITERAL+ APPEND and its message. -/
theorem append_then_noop_torn : ¬ ∀ s, imapContext.Reachable s →
    (∀ op < s.core.made, (s.core.cell op).request.isIdle = false) → ∃ ops : List OpId,
      ops.Sublist (enqueuedOps s.core.log) ∧
        s.core.stream <+: ops.flatMap fun op => (s.core.segments op).map (op, ·) := by
  intro claimed
  obtain ⟨s, reached, here⟩ := imapContext.reachable_of_trace appendThenNoop
    (fun s => decide ((∀ op < s.core.made, (s.core.cell op).request.isIdle = false) ∧
      ∀ ops ∈ (enqueuedOps s.core.log).sublists',
        ¬ s.core.stream <+: ops.flatMap fun op => (s.core.segments op).map (op, ·))) (by decide)
  obtain ⟨other, torn⟩ := of_decide_eq_true here
  obtain ⟨ops, sub, start⟩ := claimed s reached other
  exact torn ops (List.mem_sublists'.mpr sub) start

end Bkmail
