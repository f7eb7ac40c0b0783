import Bkmail.Context.Rousing

namespace Bkmail

def Operation.idle? (op : Operation) : Option IdleCommand :=
  match op.command with
  | .idle c => some c
  | _ => none

theorem Operation.idle?_eq {op : Operation} {idle : IdleCommand} : op.idle? = some idle ↔
    op.command = .idle idle := by
  unfold Operation.idle?
  split <;> simp_all

def Section.proceeds (core : ContextCore) : Section → Option OpId
  | .work (.readLoop (text :: _)) _ =>
    match Parser.parse text with
    | some (.continuation _) => core.continuationTarget.bind core.deref
    | _ => none
  | _ => none

def Section.cancelled (core : ContextCore) : Section → Option OpId
  | .call c =>
    match c.cancels core with
    | some (tag, expected) =>
      (ContextCore.lookup core.registry tag).bind fun p =>
        if core.phase = .opened ∧ expected.all (core.sameAddress p) = true then core.deref p else none
    | none => none
  | _ => none

/-- DONE is queued only when no segment of the IDLE is on its way: neither by the continuation of an
    IDLE that is to be ended, nor by the cancellation of one that idles. -/
def Prompt (core : ContextCore) (_ : List Work) (sec : Section) : Prop :=
  (∀ op ∈ sec.proceeds core, ∀ idle ∈ (core.cell op).idle?, idle.phase = .idleSent →
    idle.doneRequested = true → (core.cell op).isStaged = false) ∧
    ∀ op ∈ sec.cancelled core, ∀ idle ∈ (core.cell op).idle?, idle.phase = .idling →
    (core.cell op).isStaged = false

instance (core : ContextCore) (pending : List Work) (sec : Section) :
    Decidable (Prompt core pending sec) :=
  inferInstanceAs (Decidable (_ ∧ _))

def idleLine (tag : Tag) : Bytes := tag ++ ascii " IDLE\r\n"

def doneStaged (events : List CellEvent) : Nat := (stagedSegments events).count IdleCommand.doneLine

def Stray (events : List CellEvent) : Prop := ∃ number after, events = .flushed number :: after

def Opening (line : Bytes) (events : List CellEvent) (segments : List Bytes) : Prop :=
  segments = [line] ∨ segments = [] ∧ Stray events

theorem Opening.snoc {line : Bytes} {events : List CellEvent} {segments : List Bytes}
    (opening : Opening line events segments) (event : CellEvent) :
    Opening line (events ++ [event]) segments := by
  rcases opening with sent | ⟨none, number, after, rfl⟩
  · exact .inl sent
  · exact .inr ⟨none, number, after ++ [event], rfl⟩

theorem Opening.count {tag : Tag} {events : List CellEvent} {segments : List Bytes}
    (opening : Opening (idleLine tag) events segments) : segments.count IdleCommand.doneLine = 0 := by
  have line : idleLine tag ≠ IdleCommand.doneLine := fun same => by
    have length := congrArg List.length same
    simp [idleLine, IdleCommand.doneLine, ascii] at length
  rcases opening with rfl | ⟨rfl, -⟩
  · simp [line]
  · rfl

/-- What the phase of an IDLE tells of its history, as long as DONE is never queued over a segment
    that is on its way. -/
inductive IdleTrack (line : Bytes) (c : IdleCommand) (staged : Bool)
    (events : List CellEvent) : Prop where
  | sent : c.phase = .idleSent → c.segment = line → .continued ∉ events →
      (c.segmentPending = true → staged = true ∨ events = []) →
      events = [] ∨ Opening line events (stagedSegments events) → IdleTrack line c staged events
  | idling : c.phase = .idling → c.doneRequested = false →
      (c.segmentPending = true → staged = true) → events ≠ [] →
      Opening line events (stagedSegments events) → IdleTrack line c staged events
  | donePending (first : List Bytes) : c.phase = .donePending → c.doneRequested = true →
      c.segment = IdleCommand.doneLine → c.segmentPending = true → events ≠ [] →
      Opening line events first → stagedSegments events =
      first ++ (if staged then [IdleCommand.doneLine] else []) → IdleTrack line c staged events
  | doneSent (first : List Bytes) : c.phase = .doneSent → c.doneRequested = true →
      c.segmentPending = false → staged = false → events ≠ [] → Opening line events first →
      stagedSegments events = first ++ [IdleCommand.doneLine] →
      IdleTrack line c staged events

namespace IdleTrack

variable {tag : Tag} {line : Bytes} {c : IdleCommand} {staged : Bool} {events : List CellEvent}

theorem render : IdleTrack (idleLine tag) (IdleCommand.render {} tag) false [] :=
  .sent rfl rfl (by simp) (by simp) (.inl rfl)

theorem stage (track : IdleTrack line c false events) (filled : c.nextSegment ≠ []) (number : Nat) :
    IdleTrack line c true (events ++ [.staged number c.nextSegment]) := by
  have pends : c.segmentPending = true := by
    by_contra idle
    simp [IdleCommand.nextSegment, idle] at filled
  have segment : c.nextSegment = c.segment := by simp [IdleCommand.nextSegment, pends]
  rw [segment]
  cases track with
  | sent phase own uncontinued flying opening =>
    have empty := (flying pends).resolve_left (by simp)
    refine .sent phase own (by simp [uncontinued]) (fun _ => .inl rfl) (.inr (.inl ?_))
    simp [empty, stagedSegments, CellEvent.segment?, own]
  | idling _ _ flying => exact absurd (flying pends) (by simp)
  | donePending first phase requested own _ _ opening sent =>
    refine .donePending first phase requested own pends (by simp) (opening.snoc _) ?_
    simpa [own] using sent
  | doneSent _ _ _ flushed => simp [flushed] at pends

theorem flush (track : IdleTrack line c staged events) (own : staged = true ∨ events = [])
    (number : Nat) :
    IdleTrack line c.onSegmentFlushed false (events ++ [.flushed number]) := by
  have same : stagedSegments (events ++ [.flushed number]) = stagedSegments events := by simp
  cases track with
  | sent phase line uncontinued _ opening =>
    refine .sent (by simp [IdleCommand.onSegmentFlushed, phase]) line (by simp [uncontinued])
      (by simp [IdleCommand.onSegmentFlushed]) (.inr ?_)
    rcases opening with rfl | opening
    · exact .inr ⟨rfl, number, [], rfl⟩
    · exact same ▸ opening.snoc _
  | idling phase unrequested _ _ opening =>
    exact .idling (by simp [IdleCommand.onSegmentFlushed, phase]) unrequested
      (by simp [IdleCommand.onSegmentFlushed]) (by simp) (same ▸ opening.snoc _)
  | donePending first phase requested _ _ filled opening sent =>
    rw [own.resolve_right filled, if_pos rfl] at sent
    exact .doneSent first (by simp [IdleCommand.onSegmentFlushed, phase]) requested rfl rfl
      (by simp) (opening.snoc _)
      (same.trans sent)
  | doneSent _ _ _ _ unstaged filled =>
    exact absurd (unstaged.symm.trans (own.resolve_right filled)) (by simp)

theorem proceed (track : IdleTrack line c staged events) (awaits : c.awaitsContinuation = true)
    (earned : events ≠ [])
    (prompt : c.phase = .idleSent → c.doneRequested = true → staged = false) :
    IdleTrack line c.onContinuation staged (events ++ [.continued]) := by
  have same : stagedSegments (events ++ [.continued]) = stagedSegments events := by simp
  cases track with
  | sent phase _ _ flying opening =>
    have opening := (opening.resolve_left earned).snoc .continued
    cases requested : c.doneRequested with
    | false =>
      have next : c.onContinuation = { c with phase := .idling } := by
        simp [IdleCommand.onContinuation, phase, requested]
      rw [next]
      exact .idling rfl requested (fun pends =>
        (flying pends).resolve_right earned) (by simp) (same.symm ▸ opening)
    | true =>
      have next : c.onContinuation = { c with phase := .idling }.queueDone := by
        simp [IdleCommand.onContinuation, phase, requested]
      rw [next]
      exact .donePending _ rfl requested rfl rfl (by simp) opening (by simp [prompt phase requested])
  | idling phase | donePending _ phase | doneSent _ phase =>
      simp [IdleCommand.awaitsContinuation, phase] at awaits

theorem done (track : IdleTrack line c staged events) (prompt : c.phase = .idling → staged = false) :
    IdleTrack line c.done staged events := by
  have other : c.phase ≠ .idling → c.done = { c with doneRequested := true } := fun phase => by
    simp [IdleCommand.done, phase]
  cases track with
  | sent phase line uncontinued flying opening =>
    exact other (by simp [phase]) ▸ .sent phase line uncontinued flying opening
  | idling phase _ _ earned opening =>
    have next : c.done = { c with doneRequested := true }.queueDone := by simp [IdleCommand.done, phase]
    exact next ▸ .donePending _ rfl rfl rfl rfl earned opening (by simp [prompt phase])
  | donePending first phase _ line pends earned opening sent =>
    exact other (by simp [phase]) ▸ .donePending first phase rfl line pends earned opening sent
  | doneSent first phase _ flushed unstaged earned opening sent =>
    exact other (by simp [phase]) ▸ .doneSent first phase rfl flushed unstaged earned opening sent

end IdleTrack

def Idled (core : ContextCore) : Prop :=
  ∀ op ∈ core.writeQueue, ∀ c, (core.cell op).command = .idle c →
    IdleTrack (idleLine (core.cell op).tag) c (core.cell op).segmentStaged (history op core.log)

namespace Idled

variable {core : ContextCore} {pending others : List Work} {sec : Section} {o : Outcome}

theorem preserved (runs : sec.Runs core o) (consumed : pending.Perm (sec.consumed ++ others))
    (grounded : Grounded core pending) (routed : Routed core pending) (lived : Lived core pending)
    (aimed : Aimed core pending) (prompt : Prompt core pending sec) (idled : Idled core) :
    Idled o.core := by
  have custody := grounded.custody
  intro op queued c shape
  have entered : op ∈ core.writeQueue ∨ ∃ post, sec = .work (.enqueueOperation op post) .go := by
    rcases runs.queue with lost | ⟨q, post, enters, -, grown⟩
    · exact .inl (lost.subset queued)
    · rcases List.mem_append.mp (grown.subset queued) with old | new
      · exact .inl old
      · exact .inr ⟨post, List.mem_singleton.mp new ▸ enters⟩
  rcases entered with before | ⟨post, enters⟩
  · have step := grounded.cell_step consumed runs (grounded.queue_made before)
    have earlier := idled op before
    rw [(runs.fixed (grounded.queue_made before)).tag]
    cases step with
    | same wire log | detach _ _ _ _ _ _ _ _ _ _ wire log =>
      exact wire.segmentStaged ▸ log ▸ earlier c (wire.command.symm.trans shape)
    | stage _ _ _ reached wire log =>
      have own : (core.cell op).command = .idle c := wire.command.symm.trans shape
      have unstaged := ContextCore.reached_unstaged reached
      have segment : (core.cell op).nextSegment = c.nextSegment := by
        simp [Operation.nextSegment, unstaged, own, Command.nextSegment]
      have track := (unstaged ▸ earlier c own).stage (segment ▸ ContextCore.reached_segment reached)
        (core.drains + 1)
      rw [wire.segmentStaged, log, segment]
      exact track
    | flush batch ran _ hit wire log =>
      have token : batch ∈ batchesOf pending :=
        Grounded.consumed_batch consumed (by simp [ran, Section.consumed, Work.batch?])
      have flushed : (core.cell op).command.onSegmentFlushed = .idle c := wire.command.symm.trans shape
      cases own : (core.cell op).command with
      | idle d =>
        simp only [own, Command.onSegmentFlushed, Command.idle.injEq] at flushed
        have track :=
          (earlier d own).flush ((aimed.hit grounded token hit).imp_left And.right) batch.number
        rw [wire.segmentStaged, log, ← flushed]
        exact track
      | _ => simp [own, Command.onSegmentFlushed] at flushed
    | «continue» text rest r p reads parsed target found wire log =>
      obtain ⟨-, awaits, stays⟩ := routed.route p target
      have itself := found
      rw [custody.deref_eq (stays.live custody), Option.some.injEq] at itself
      subst itself
      have continued : (core.cell p).command.onContinuation = .idle c := wire.command.symm.trans shape
      cases own : (core.cell p).command with
      | idle d =>
        simp only [own, Command.onContinuation, Command.idle.injEq] at continued
        have proceeds :
          p ∈ sec.proceeds core := by simp [reads, Section.proceeds, parsed, target, found]
        have waits : d.awaitsContinuation = true := by
          simpa [Operation.awaitsContinuation, own, Command.awaitsContinuation] using awaits
        have track := (earlier d own).proceed waits (aimed.earned p target)
          (prompt.1 p proceeds d (Operation.idle?_eq.mpr own))
        rw [wire.segmentStaged, log, ← continued]
        exact track
      | _ => simp [own, Command.onContinuation] at continued
    | done call tag expected p d ran cancels opened found itself cell own wire log =>
      have done : d.done = c := by simpa using wire.command.symm.trans shape
      have cancelled : op ∈ sec.cancelled core := by
        simp [ran, Section.cancelled, cancels, found, opened, itself, cell]
      have track := (earlier d own).done (prompt.2 op cancelled d (Operation.idle?_eq.mpr own))
      rw [wire.segmentStaged, log, ← done]
      exact track
    | tagged r ends =>
      have pends : .onTagged op r ∈ pending :=
        Grounded.consumed_mem consumed (by simp [ends, Section.consumed])
      exact absurd before (grounded.ledger.not_owed pends (List.mem_singleton.mpr rfl))
  · have pends : .enqueueOperation op post ∈ pending :=
      Grounded.consumed_mem consumed (by simp [enters, Section.consumed])
    obtain ⟨empty, command, -, unstaged⟩ := lived.fresh op post pends
    obtain ⟨wire, log⟩ := Lived.unregistered_same routed runs consumed grounded pends
    have rendered : (core.cell op).request.render (core.cell op).tag = .idle c := by
      rw [← command, ← wire.command, shape]
    rw [wire.tag, wire.segmentStaged, unstaged, log, empty]
    generalize (core.cell op).request = request at rendered
    cases request <;> cases rendered
    exact .render

theorem of_run {s : System} (run : GuardedRun Prompt s) : Idled s.core :=
  run.invariant (fun core _ => Idled core) (fun _ _ _ _ idled => idled) (by simp [Idled])
    fun _ _ _ _ earlier consumed idled prompt runs =>
      idled.preserved runs consumed (.of_run earlier) (.of_run earlier) (.of_run earlier)
        (.of_run earlier) prompt

end Idled

def Operation.doneRequested (op : Operation) : Bool :=
  match op.command with
  | .idle c => c.doneRequested
  | _ => false

/-- DONE has been staged once, or is what the cell sends next; behind the IDLE line it does not wait
    for long. -/
structure DoneKept (s : System) (op : OpId) : Prop where
  once : doneStaged (history op s.core.log) ≤ 1
  kept : doneStaged (history op s.core.log) = 0 → (s.core.cell op).nextSegment = IdleCommand.doneLine
  sent : s.core.phase = .opened → s.Quiescent → s.core.writeInFlight = false →
    s.core.kickPosted = false → stagedSegments (history op s.core.log) ≠ [] →
    doneStaged (history op s.core.log) = 1

def PromptlyScheduled (core : ContextCore) (pending : List Work) (sec : Section) : Prop :=
  Prompt core pending sec ∧ Scheduled core pending sec

instance (core : ContextCore) (pending : List Work) (sec : Section) :
    Decidable (PromptlyScheduled core pending sec) :=
  inferInstanceAs (Decidable (_ ∧ _))

/-- No DONE is lost that was requested of an IDLE that the server has acknowledged, as long as it is
    never queued over the IDLE line that is still on its way. -/
theorem done_kept {s : System} (run : GuardedRun PromptlyScheduled s) {op : OpId}
    (queued : op ∈ s.core.writeQueue)
    (requested : (s.core.cell op).doneRequested = true)
    (continued : .continued ∈ history op s.core.log) :
    DoneKept s op := by
  have idled := Idled.of_run (run.mono fun _ _ allowed sec selected => (allowed sec selected).1)
  have roused := Roused.of_run (run.mono fun _ _ allowed sec selected => (allowed sec selected).2)
  obtain ⟨c, own, requested⟩ : ∃ c, (s.core.cell op).command = .idle c ∧ c.doneRequested = true := by
    unfold Operation.doneRequested at requested
    split at requested
    · exact ⟨_, ‹_›, requested⟩
    · cases requested
  have kept : doneStaged (history op s.core.log) ≤ 1 ∧
      (doneStaged (history op s.core.log) = 0 →
      (s.core.cell op).nextSegment = IdleCommand.doneLine) := by
    cases idled op queued c own with
    | sent _ _ uncontinued => exact absurd continued uncontinued
    | idling _ unrequested => simp [unrequested] at requested
    | donePending first _ _ line pends _ opening sent =>
      cases staged : (s.core.cell op).segmentStaged with
      | true => simp [doneStaged, sent, staged, opening.count]
      | false => simp [doneStaged, sent, staged, opening.count, Operation.nextSegment, own,
          Command.nextSegment, IdleCommand.nextSegment, pends, line]
    | doneSent first _ _ _ _ _ opening sent => simp [doneStaged, sent, opening.count]
  refine ⟨kept.1, kept.2, fun opened quiescent idle unposted started => ?_⟩
  by_contra unsent
  have none : doneStaged (history op s.core.log) = 0 := by
    have := kept.1
    omega
  have rest := roused.at_rest opened quiescent idle unposted queued started
  rw [kept.2 none] at rest
  cases rest

def idleEnded : List Action :=
  flushed .idle ++ [Action.resume 1 (.data [ascii "+ idling"]), .resume 1 .go, .resume 1 .go,
    .resume 1 .go, .resume 1 .go, .resume 1 .go, .call (.cancel (tagText 1)), .resume 9 .go,
    .resume 7 .done, .resume 7 .go, .resume 7 .go,
    .resume 7 .go, .resume 10 .done, .resume 10 .go, .resume 10 .go]

theorem done_kept_cancelled : ∃ s, GuardedRun PromptlyScheduled s ∧ 0 ∈ s.core.writeQueue ∧
    (s.core.cell 0).doneRequested = true ∧ .continued ∈ history 0 s.core.log ∧ DoneKept s 0 := by
  obtain ⟨s, run, here⟩ := GuardedRun.of_trace PromptlyScheduled idleEnded
    (fun s => decide (0 ∈ s.core.writeQueue ∧ (s.core.cell 0).doneRequested = true ∧
      .continued ∈ history 0 s.core.log)) (by decide)
  obtain ⟨queued, requested, continued⟩ := of_decide_eq_true here
  exact ⟨s, run, queued, requested, continued, done_kept run queued requested continued⟩

/-- The IDLE line is on its way when the IDLE is cancelled, and the server acknowledges it before
    the write completes. -/
def doneOverwritten : List Action :=
  inFlight .idle ++ [Action.call (.cancel (tagText 1)), .resume 7 .go,
    .resume 1 (.data [ascii "+ idling"]), .resume 1 .go,
    .resume 1 .go, .resume 1 .go, .resume 1 .go, .resume 1 .go, .resume 6 .done, .resume 6 .go,
    .resume 6 .go]

/-- The flush of the IDLE line takes DONE for sent. -/
theorem done_overwritten_lost : ¬ ∀ s, imapContext.Reachable s → ∀ op ∈ s.core.writeQueue,
    (s.core.cell op).doneRequested = true → .continued ∈ history op s.core.log → DoneKept s op := by
  intro claimed
  obtain ⟨s, reached, here⟩ := imapContext.reachable_of_trace doneOverwritten
    (fun s => decide (0 ∈ s.core.writeQueue ∧ (s.core.cell 0).doneRequested = true ∧
      .continued ∈ history 0 s.core.log ∧ doneStaged (history 0 s.core.log) = 0 ∧
        (s.core.cell 0).nextSegment = [])) (by decide)
  obtain ⟨queued, requested, continued, unsent, lost⟩ := of_decide_eq_true here
  have kept := (claimed s reached 0 queued requested continued).kept unsent
  rw [lost] at kept
  cases kept

end Bkmail
