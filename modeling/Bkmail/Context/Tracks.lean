import Bkmail.Command.Progress
import Bkmail.Context.Aim
import Bkmail.Context.Replies

namespace Bkmail

def CellEvent.segment? : CellEvent → Option Bytes
  | .staged _ segment => some segment
  | _ => none

def stagedSegments (events : List CellEvent) : List Bytes := events.filterMap CellEvent.segment?

def continuations (events : List CellEvent) : Nat := events.count .continued

@[simp] theorem stagedSegments_append (before after : List CellEvent) :
    stagedSegments (before ++ after) = stagedSegments before ++ stagedSegments after := by
  simp [stagedSegments]

@[simp] theorem stagedSegments_staged (number : Nat) (segment : Bytes) :
    stagedSegments [.staged number segment] = [segment] := rfl

@[simp] theorem stagedSegments_flushed (number : Nat) : stagedSegments [.flushed number] = [] := rfl

@[simp] theorem stagedSegments_continued : stagedSegments [.continued] = [] := rfl

@[simp] theorem continuations_append (before after : List CellEvent) :
    continuations (before ++ after) = continuations before + continuations after := by
  simp [continuations]

/-- The counters of a cell tell what its history is: the segments staged are the first ones of the
    rendered command, and every continuation has unlocked one of them. -/
structure Track (c : Operation) (rendered p : Progress) (events : List CellEvent) : Prop where
  start : (c.request.render c.tag).progress = some rendered
  shape : c.command.progress = some p
  segments : p.segments = rendered.segments
  unlocked : p.unlocked = rendered.unlocked + continuations events
  within : p.unlocked ≤ p.segments.length
  emitted : p.emitted ≤ p.unlocked
  ahead : c.segmentStaged = true → p.emitted < p.unlocked
  staged : stagedSegments events = rendered.segments.take (p.emitted + if c.segmentStaged then 1 else 0)

def Tracked (c : Operation) (events : List CellEvent) : Prop :=
  (c.request.render c.tag).progress = none ∨ ∃ rendered p, Track c rendered p events

def Section.address : Section → Option Nat
  | .call (.submit _ _ addr _) => some addr
  | _ => none

/-- No cell is made at the address of a cell of the write that is under way. -/
def Spared (core : ContextCore) (pending : List Work) (sec : Section) : Prop :=
  ∀ addr ∈ sec.address, ∀ batch ∈ batchesOf pending, ∀ p ∈ batch.ops, (core.cell p).addr ≠ addr

instance (core : ContextCore) (pending : List Work) (sec : Section) :
    Decidable (Spared core pending sec) :=
  inferInstanceAs (Decidable (∀ addr ∈ sec.address, ∀ batch ∈ batchesOf pending, ∀ p ∈ batch.ops, _))

namespace Track

variable {c d : Operation} {rendered p : Progress} {events : List CellEvent}

theorem keeps (track : Track c rendered p events) (request : d.request = c.request)
    (tag : d.tag = c.tag)
    (command : d.command = c.command) (segmentStaged : d.segmentStaged = c.segmentStaged) :
    Track d rendered p events where
  start := by rw [request, tag, track.start]
  shape := command ▸ track.shape
  segments := track.segments
  unlocked := track.unlocked
  within := track.within
  emitted := track.emitted
  ahead staged := track.ahead (segmentStaged ▸ staged)
  staged := segmentStaged ▸ track.staged

theorem same (track : Track c rendered p events) (wire : c.SameWire d) : Track d rendered p events :=
  track.keeps wire.request wire.tag wire.command wire.segmentStaged

theorem nextSegment (track : Track c rendered p events) (unstaged : c.segmentStaged = false) :
    c.nextSegment = p.next := by
  simp [Operation.nextSegment, unstaged, Command.nextSegment_progress track.shape]

theorem awaits (track : Track c rendered p events) : c.awaitsContinuation = p.awaits :=
  Command.awaitsContinuation_progress track.shape

theorem stage (track : Track c rendered p events) (unstaged : c.segmentStaged = false)
    (filled : c.nextSegment ≠ [])
    (number : Nat) : Track c.onSegmentStaged rendered p (events ++ [.staged number c.nextSegment]) := by
  have next := track.nextSegment unstaged
  have ahead : p.emitted < p.unlocked := by
    by_contra past
    exact filled (next.trans (if_neg past))
  have bound : p.emitted < rendered.segments.length :=
    track.segments ▸ Nat.lt_of_lt_of_le ahead track.within
  refine ⟨track.start, track.shape, track.segments, ?_, track.within, track.emitted, fun _ => ahead, ?_⟩
  · simp [track.unlocked, continuations]
  · have segment : c.nextSegment = rendered.segments[p.emitted] := by
      rw [next, Progress.next, if_pos ahead, track.segments]
      simp [bound]
    have before := track.staged
    simp only [unstaged, Bool.false_eq_true, if_false, Nat.add_zero] at before
    rw [stagedSegments_append, stagedSegments_staged, before, segment]
    exact (List.take_succ_eq_append_getElem bound).symm

theorem flush (track : Track c rendered p events) (staged : c.segmentStaged = true) (number : Nat) :
    Track c.onSegmentFlushed rendered p.flushed (events ++ [.flushed number]) := by
  have ahead := track.ahead staged
  have more : p.emitted < p.segments.length := Nat.lt_of_lt_of_le ahead track.within
  refine ⟨track.start, Command.onSegmentFlushed_progress track.shape, track.segments, ?_,
    track.within, ?_, ?_, ?_⟩
  · simp [Progress.flushed, track.unlocked, continuations]
  · simp only [Progress.flushed, more, if_true]
    exact ahead
  · simp [Operation.onSegmentFlushed]
  · have before := track.staged
    simp only [staged, if_true] at before
    simp [before, Progress.flushed, more, Operation.onSegmentFlushed]

theorem proceed (track : Track c rendered p events) (waits : c.awaitsContinuation = true) :
    Track c.onContinuation rendered p.continued (events ++ [.continued]) := by
  have more : p.unlocked < p.segments.length := by
    rw [track.awaits] at waits
    simpa [Progress.awaits] using waits
  refine ⟨track.start, Command.onContinuation_progress track.shape waits, track.segments, ?_,
    more, ?_, ?_, ?_⟩
  · simp [Progress.continued, track.unlocked, continuations, Nat.add_assoc]
  · exact Nat.le_succ_of_le track.emitted
  · exact fun staged => Nat.lt_succ_of_lt (track.ahead staged)
  · rw [stagedSegments_append, stagedSegments_continued, List.append_nil]
    exact track.staged

theorem isWritten_iff (track : Track c rendered p events)
    (filled : ∀ segment ∈ rendered.segments, segment ≠ []) :
    c.isWritten = true ↔ c.segmentStaged = false ∧ p.emitted = rendered.segments.length := by
  have shape : c.isWritten = true ↔ c.segmentStaged = false ∧ p.awaits = false ∧ p.next = [] := by
    simp [Operation.isWritten, Command.awaitsContinuation_progress track.shape,
      Command.nextSegment_progress track.shape, and_assoc]
  have within := track.within
  have emitted := track.emitted
  rw [shape, ← track.segments]
  refine and_congr_right fun _ => ⟨?_, fun all => ?_⟩
  · rintro ⟨free, empty⟩
    simp only [Progress.awaits, decide_eq_false_iff_not, Nat.not_lt] at free
    by_contra short
    have ahead : p.emitted < p.unlocked := by omega
    have bound : p.emitted < p.segments.length := by omega
    rw [Progress.next, if_pos ahead, List.getElem?_eq_getElem bound] at empty
    exact filled _ (track.segments ▸ List.getElem_mem bound) empty
  · have past : ¬ p.emitted < p.unlocked := by omega
    simp only [Progress.awaits, Progress.next, past, if_false, decide_eq_false_iff_not]
    exact ⟨by omega, trivial⟩

end Track

namespace Tracked

variable {c d : Operation} {events : List CellEvent}

theorem attach (addr : Nat) {tag : Tag} (stamped : tag ≠ []) (request : Request) (callbackPath : Bool) :
    Tracked (.attach addr tag request callbackPath) [] := by
  cases shape : (request.render tag).progress with
  | none => exact .inl shape
  | some p =>
    have initial := Request.render_initial stamped shape
    refine .inr ⟨p, p, shape, shape, rfl, rfl, initial.within, ?_, ?_, ?_⟩
    · simp [initial.emitted]
    · simp [Operation.attach]
    · simp [initial.emitted, Operation.attach, stagedSegments]

end Tracked

/-- The tags in use are texts of numbers, so no command is stamped with the empty text. -/
def Stamped (core : ContextCore) : Prop := ∀ tag ∈ core.stamps, ∃ n, tag = tagText n

theorem Stamped.of_run {guard : ContextCore → List Work → Section → Prop} {s : System}
    (run : GuardedRun guard s) :
    Stamped s.core := by
  refine run.invariant (fun core _ => Stamped core) (fun _ _ _ _ stamped => stamped)
    (by simp [Stamped, ContextCore.stamps]) ?_
  intro s others sec o earlier consumed stamped _ runs tag member
  rcases runs.stamps with ⟨-, -, stamps⟩ | ⟨-, -, -, stamps⟩
  · exact stamped tag (stamps.subset member)
  · rcases List.mem_cons.mp (stamps.subset member) with rfl | old
    · exact ⟨_, rfl⟩
    · exact stamped tag old

theorem Stamped.filled {core : ContextCore} (stamped : Stamped core) {tag : Tag}
    (member : tag ∈ core.stamps) : tag ≠ [] := by
  obtain ⟨n, rfl⟩ := stamped tag member
  exact List.cons_ne_nil _ _

def Sole (core : ContextCore) (pending : List Work) : Prop :=
  ∀ batch ∈ batchesOf pending, ∀ p ∈ batch.ops, ∀ q ∈ core.live,
    (core.cell p).addr = (core.cell q).addr → p = q

namespace Sole

variable {core : ContextCore} {pending others : List Work} {sec : Section} {o : Outcome}

theorem preserved (runs : sec.Runs core o) (consumed : pending.Perm (sec.consumed ++ others))
    (grounded : Grounded core pending) (spared : Spared core pending sec) (sole : Sole core pending) :
    Sole o.core (o.produced ++ others) := by
  have custody := grounded.custody
  intro batch member p contains q live same
  rcases runs.newcomer ((custody.preserved runs consumed).made q live)
    with old | ⟨_, _, addr, _, rfl, -, rfl, cell, -⟩
  · have before := runs.live_old live old
    rcases Aimed.source runs consumed grounded member with ⟨token, -⟩ | ⟨-, ops, -⟩
    · rw [(runs.fixed (grounded.batched.made batch token p contains)).addr,
        (runs.fixed old).addr] at same
      exact sole batch token p contains q before same
    · have queued := (ContextCore.reached_sublist core core.writeQueue).subset (ops ▸ contains)
      have live := custody.queue_live queued
      rw [(runs.fixed (custody.made p live)).addr, (runs.fixed old).addr] at same
      exact custody.distinct p live q before same
  · rcases Aimed.source runs consumed grounded member with ⟨token, -⟩ | ⟨-, -, kicked⟩
    · rw [(runs.fixed (grounded.batched.made batch token p contains)).addr, cell] at same
      exact absurd same (spared addr rfl batch token p contains)
    · cases runs
      have drains := kicked.drains
      simp [ContextCore.attach] at drains

theorem of_run {s : System} (run : GuardedRun Spared s) : Sole s.core s.pending :=
  run.invariant Sole (fun _ _ _ perm sole batch member =>
    sole batch ((batchesOf_perm perm.symm).subset member))
    (by simp [Sole, Work.batch?])
    fun _ _ _ _ earlier consumed sole spared runs =>
      sole.preserved runs consumed (.of_run earlier) spared

end Sole

theorem Sole.hit {core : ContextCore} {pending : List Work} (custody : Custody core pending)
    (sole : Sole core pending)
    (aimed : Aimed core pending) {batch : Batch} (token : batch ∈ batchesOf pending) {op : OpId}
    (hit : op ∈ core.hits batch.ops) : op ∈ batch.ops ∧ (core.cell op).segmentStaged = true := by
  obtain ⟨queued, p, contains, same⟩ := ContextCore.mem_hits hit
  cases sole batch token p contains op (custody.queue_live queued) same
  exact ⟨contains, aimed.staged batch token op contains queued⟩

theorem Command.afterTagged_progress {c : Command} {p : Progress} (shape : c.progress = some p) :
    c.afterTagged = c := by
  cases c with
  | idle => cases shape
  | _ => rfl

def Followed (core : ContextCore) : Prop :=
  ∀ op < core.made, Tracked (core.cell op) (history op core.log)

namespace Followed

variable {core : ContextCore} {pending others : List Work} {sec : Section} {o : Outcome}

theorem preserved (runs : sec.Runs core o) (consumed : pending.Perm (sec.consumed ++ others))
    (grounded : Grounded core pending) (routed : Routed core pending) (lived : Lived core pending)
    (aimed : Aimed core pending) (sole : Sole core pending) (stamped : Stamped core)
    (followed : Followed core) :
    Followed o.core := by
  have custody := grounded.custody
  intro op made
  rcases runs.newcomer made with old | ⟨tag, request, addr, callbackPath, rfl, allocated,
    rfl, cell, log⟩
  · have track := followed op old
    have wire := runs.fixed old
    rcases track with untracked | ⟨rendered, p, track⟩
    · exact .inl (by rw [wire.request, wire.tag, untracked])
    refine .inr ⟨rendered, ?_⟩
    cases grounded.cell_step consumed runs old with
    | same wire log => exact ⟨p, log ▸ track.same wire⟩
    | stage _ _ _ reached wire log =>
      have unstaged := ContextCore.reached_unstaged reached
      exact ⟨p, log ▸ (track.stage unstaged (ContextCore.reached_segment reached) _).same wire⟩
    | flush batch ran _ hit wire log =>
      have token : batch ∈ batchesOf pending :=
        Grounded.consumed_batch consumed (by simp [ran, Section.consumed, Work.batch?])
      exact ⟨p.flushed, log ▸ (track.flush (sole.hit custody aimed token hit).2 _).same wire⟩
    | «continue» _ _ _ q _ _ target found wire log =>
      obtain ⟨-, awaits, stays⟩ := routed.route q target
      rw [custody.deref_eq (stays.live custody), Option.some.injEq] at found
      subst found
      exact ⟨p.continued, log ▸ (track.proceed awaits).same wire⟩
    | done _ _ _ _ idle _ _ _ _ _ _ shape wire log =>
      have idle := track.shape
      simp [shape, Command.progress] at idle
    | detach _ _ _ _ _ _ _ _ _ _ wire log =>
      exact ⟨p, log ▸ track.keeps wire.request wire.tag wire.command wire.segmentStaged⟩
    | tagged r _ wire log =>
      have command := wire.command.trans (Command.afterTagged_progress track.shape)
      exact ⟨p, log ▸ track.keeps wire.request wire.tag command wire.segmentStaged⟩
  · rw [cell, log, lived.unborn _ (Nat.le_refl _)]
    exact .attach addr (stamped.filled (List.mem_append_left _ allocated)) request callbackPath

theorem of_run {s : System} (run : GuardedRun Spared s) : Followed s.core :=
  run.invariant (fun core _ => Followed core) (fun _ _ _ _ followed => followed)
    (fun _ made => absurd made (Nat.not_lt_zero _))
    fun _ _ _ _ earlier consumed followed _ runs =>
      followed.preserved runs consumed (.of_run earlier) (.of_run earlier) (.of_run earlier)
        (.of_run earlier)
        (.of_run earlier) (.of_run earlier)

end Followed

end Bkmail
