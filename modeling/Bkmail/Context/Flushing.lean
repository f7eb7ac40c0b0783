import Bkmail.Context.Gating
import Bkmail.Context.Idling

namespace Bkmail

/-- What is to be sent of a cell in all: the segments of its command, and DONE once an IDLE is to be
    ended. -/
def Operation.wire (op : Operation) : List Bytes :=
  match op.request with
  | .idle => idleLine op.tag :: if op.doneRequested then [IdleCommand.doneLine] else []
  | request => request.segments op.tag

def Request.isIdle : Request → Bool
  | .idle => true
  | _ => false

def Command.isIdle : Command → Bool
  | .idle _ => true
  | _ => false

theorem Command.isIdle_flushed (c : Command) :
    c.onSegmentFlushed.isIdle = c.isIdle := by cases c <;> rfl

theorem Command.isIdle_continued (c : Command) :
    c.onContinuation.isIdle = c.isIdle := by cases c <;> rfl

theorem Command.isIdle_tagged (c : Command) : c.afterTagged.isIdle = c.isIdle := by cases c <;> rfl

theorem ContextCore.tag_stamped {core : ContextCore} {op : OpId} (made : op < core.made) :
    (core.cell op).tag ∈ core.stamps :=
  List.mem_append_right _ (List.mem_map.mpr ⟨op, List.mem_range.mpr made, rfl⟩)

def Sorted (core : ContextCore) : Prop :=
  ∀ op < core.made, (core.cell op).command.isIdle = (core.cell op).request.isIdle

namespace Sorted

variable {core : ContextCore} {pending others : List Work} {sec : Section} {o : Outcome}

theorem preserved (runs : sec.Runs core o) (consumed : pending.Perm (sec.consumed ++ others))
    (grounded : Grounded core pending) (sorted : Sorted core) : Sorted o.core := by
  intro op made
  rcases runs.newcomer made with old | ⟨tag, request, addr, callbackPath, -, -, rfl, cell, -⟩
  · rw [(runs.fixed old).request, ← sorted op old]
    cases grounded.cell_step consumed runs old with
    | same wire | stage _ _ _ _ wire | detach _ _ _ _ _ _ _ _ _ _ wire =>
        exact congrArg Command.isIdle wire.command
    | flush _ _ _ _ wire =>
        exact (congrArg Command.isIdle wire.command).trans (Command.isIdle_flushed _)
    | «continue» _ _ _ _ _ _ _ _ wire =>
        exact (congrArg Command.isIdle wire.command).trans (Command.isIdle_continued _)
    | tagged _ _ wire => exact (congrArg Command.isIdle wire.command).trans (Command.isIdle_tagged _)
    | done _ _ _ _ _ _ _ _ _ _ _ shape wire =>
        exact (congrArg Command.isIdle wire.command).trans (shape ▸ rfl)
  · rw [cell]
    cases request <;> rfl

theorem of_run {guard : ContextCore → List Work → Section → Prop} {s : System}
    (run : GuardedRun guard s) :
    Sorted s.core :=
  run.invariant (fun core _ => Sorted core) (fun _ _ _ _ sorted => sorted) (fun _ made =>
    absurd made (Nat.not_lt_zero _))
    fun _ _ _ _ earlier consumed sorted _ runs => sorted.preserved runs consumed (.of_run earlier)

end Sorted

/-- A flush belongs to the write that the segment was staged for. -/
def OwnFlush (before : List CellEvent) (event : CellEvent) : Prop :=
  ∀ number, event = .flushed number → ∃ segment, .staged number segment ∈ before

theorem OwnFlush.stray {events : List CellEvent} (own : Automaton.Causal OwnFlush events) :
    ¬ Stray events := by
  rintro ⟨number, after, split⟩
  obtain ⟨segment, before⟩ := own [] _ after split number rfl
  cases before

section

variable {core : ContextCore} {pending others : List Work} {sec : Section} {o : Outcome}

theorem OwnFlush.preserved (runs : sec.Runs core o) (consumed : pending.Perm (sec.consumed ++ others))
    (grounded : Grounded core pending) (lived : Lived core pending) (aimed : Aimed core pending)
    (sole : Sole core pending) (op : OpId) (own : Automaton.Causal OwnFlush (history op core.log)) :
    Automaton.Causal OwnFlush (history op o.core.log) := by
  by_cases made : op < core.made
  · cases grounded.cell_step consumed runs made with
    | same _ log | done _ _ _ _ _ _ _ _ _ _ _ _ _ log | detach _ _ _ _ _ _ _ _ _ _ _ log | tagged _ _ _ log =>
      exact log ▸ own
    | stage _ _ _ _ _ log | «continue» _ _ _ _ _ _ _ _ _ log =>
        exact log ▸ own.snoc (by simp [OwnFlush])
    | flush batch ran _ hit _ log =>
      have token : batch ∈ batchesOf pending :=
        Grounded.consumed_batch consumed (by simp [ran, Section.consumed, Work.batch?])
      rw [log]
      refine own.snoc fun number same => ?_
      cases same
      exact lived.carried batch token op (sole.hit grounded.custody aimed token hit).1
  · have dead : op ∉ core.live := fun live => made (grounded.custody.made op live)
    exact runs.history_dead consumed grounded dead ▸ own

theorem OwnFlush.of_run {s : System} (run : GuardedRun Spared s) (op : OpId) :
    Automaton.Causal OwnFlush (history op s.core.log) :=
  run.invariant (fun core _ => Automaton.Causal OwnFlush (history op core.log)) (fun _ _ _ _ own =>
    own) .nil
    fun _ _ _ _ earlier consumed own _ runs =>
      OwnFlush.preserved runs consumed (.of_run earlier) (.of_run earlier) (.of_run earlier)
        (.of_run earlier) op own

end

/-- The flushes of a cell are its own, and it counts as written only when everything of it is
    staged. -/
structure RightlyFlushed (s : System) (op : OpId) : Prop where
  own : ∀ before after number, history op s.core.log = before ++ .flushed number :: after →
    ∃ segment, .staged number segment ∈ before
  whole : op ∈ s.core.writeQueue → (s.core.cell op).isWritten = true →
    stagedSegments (history op s.core.log) = (s.core.cell op).wire

/-- The cells of a write are not replaced while it is under way, and no DONE is queued over a
    segment. -/
def Undisturbed (core : ContextCore) (pending : List Work) (sec : Section) : Prop :=
  Spared core pending sec ∧ Prompt core pending sec

instance (core : ContextCore) (pending : List Work) (sec : Section) :
    Decidable (Undisturbed core pending sec) :=
  inferInstanceAs (Decidable (_ ∧ _))

theorem IdleTrack.whole {line : Bytes} {c : IdleCommand} {events : List CellEvent}
    (track : IdleTrack line c false events) (own : Automaton.Causal OwnFlush events)
    (free : c.awaitsContinuation = false) (sent : c.nextSegment = []) :
    stagedSegments events = line :: if c.doneRequested then [IdleCommand.doneLine] else [] := by
  have opened : ∀ {first}, Opening line events first → first = [line] := fun opening =>
    opening.resolve_right fun stray => OwnFlush.stray own stray.2
  cases track with
  | sent phase => simp [IdleCommand.awaitsContinuation, phase] at free
  | idling _ unrequested _ _ opening => simpa [unrequested] using opened opening
  | donePending _ _ _ own pends =>
      simp [IdleCommand.nextSegment, own, pends, IdleCommand.doneLine, ascii] at sent
  | doneSent first _ requested _ _ _ opening both => simp [both, opened opening, requested]

theorem Track.whole {c : Operation} {rendered p : Progress} {events : List CellEvent}
    (track : Track c rendered p events)
    (filled : ∀ segment ∈ rendered.segments, segment ≠ []) (written : c.isWritten = true) :
    stagedSegments events = rendered.segments := by
  obtain ⟨unstaged, all⟩ := (track.isWritten_iff filled).mp written
  simp [track.staged, unstaged, all]

theorem Operation.wire_segments {op : Operation} (other : op.request.isIdle = false) :
    op.wire = op.request.segments op.tag := by
  unfold Operation.wire
  split
  · rename_i idle
    simp [idle, Request.isIdle] at other
  · rfl

theorem Request.progress_of_other {request : Request} (other : request.isIdle = false) (tag : Tag) :
    (request.render tag).progress ≠ none := by
  cases request <;> simp [Request.isIdle, Request.render, Command.progress] at other ⊢

theorem rightly_flushed {s : System} (run : GuardedRun Undisturbed s) (op : OpId) :
    RightlyFlushed s op := by
  have spared : GuardedRun Spared s := run.mono fun _ _ allowed sec selected => (allowed sec selected).1
  have prompt : GuardedRun Prompt s := run.mono fun _ _ allowed sec selected => (allowed sec selected).2
  have grounded := Grounded.of_run run
  have own := OwnFlush.of_run spared op
  refine ⟨fun before after number split => own before _ after split number rfl,
    fun queued written => ?_⟩
  have made := grounded.queue_made queued
  have sorted := Sorted.of_run run op made
  cases kind : (s.core.cell op).request.isIdle with
  | true =>
    obtain ⟨c, idle⟩ : ∃ c, (s.core.cell op).command = .idle c := by
      rw [kind] at sorted
      generalize (s.core.cell op).command = command at sorted
      cases command <;> simp [Command.isIdle] at sorted ⊢
    have request : (s.core.cell op).request = .idle := by
      generalize (s.core.cell op).request = request at kind
      cases request <;> simp [Request.isIdle] at kind ⊢
    simp only [Operation.isWritten, idle, Command.awaitsContinuation, Command.nextSegment,
      Bool.and_eq_true, Bool.not_eq_true', beq_iff_eq] at written
    have track := Idled.of_run prompt op queued c idle
    rw [written.1.1] at track
    simpa [Operation.wire, request, Operation.doneRequested, idle]
      using track.whole own written.1.2 written.2
  | false =>
    obtain ⟨rendered, p, track⟩ :=
      (Followed.of_run spared op made).resolve_left (Request.progress_of_other kind _)
    have stamped := (Stamped.of_run run).filled (ContextCore.tag_stamped made)
    rw [Operation.wire_segments kind,
      track.whole (Request.render_initial stamped track.start).filled written]
    simp [Request.segments, track.start]

/-- A NOOP is written and waits for its reply. -/
theorem rightly_flushed_noop : ∃ s, GuardedRun Undisturbed s ∧ 0 ∈ s.core.writeQueue ∧
    (s.core.cell 0).isWritten = true ∧ RightlyFlushed s 0 := by
  obtain ⟨s, run, here⟩ := GuardedRun.of_trace Undisturbed (flushed (.line noopCommand))
    (fun s => decide (0 ∈ s.core.writeQueue ∧ (s.core.cell 0).isWritten = true)) (by decide)
  obtain ⟨queued, written⟩ := of_decide_eq_true here
  exact ⟨s, run, queued, written, rightly_flushed run 0⟩

/-- The reply to a NOOP comes before its write completes, and the next NOOP is made where the first
    one was. -/
def replacedInFlight : List Action :=
  noopInFlight ++ [Action.resume 1 (.data [ascii "a0001 OK done"]), .resume 1 .go, .resume 1 .go,
    .resume 1 .go, .call .allocateTag, .call (.submit (tagText 2) (.line noopCommand) 100 true),
    .resume 8 .go, .resume 6 .done, .resume 6 .go]

/-- The second NOOP is flushed and counts as written, and no byte of it was staged. -/
theorem replaced_in_flight_flushed : ¬ ∀ s, imapContext.Reachable s → ∀ op, RightlyFlushed s op := by
  intro claimed
  obtain ⟨s, reached, here⟩ := imapContext.reachable_of_trace replacedInFlight
    (fun s => decide (history 1 s.core.log = [.flushed 1])) (by decide)
  obtain ⟨segment, staged⟩ := (claimed s reached 1).own [] [] 1 (of_decide_eq_true here)
  cases staged

end Bkmail
