import Bkmail.Context.Contiguity

namespace Bkmail

namespace ContextCore

theorem drain_keeps_route (ops : List OpId) (s : ContextCore) (routed : s.continuationTarget ≠ none) :
    (s.drain ops).1.continuationTarget ≠ none := by
  have turn : ∀ op segment, (s.stage op segment).continuationTarget ≠ none := fun op segment => by
    rw [stage_target]
    split
    · simp
    · exact routed
  induction ops generalizing s with
  | nil => exact routed
  | cons op ops ih =>
    simp only [drain]
    split
    · exact ih s routed turn
    · split
      · split
        · exact routed
        · exact ih s routed turn
      · split
        · exact turn op _
        · refine ih _ (turn op _) fun q segment => ?_
          rw [stage_target]
          split
          · simp
          · exact turn op _

/-- A drain that gets to a cell that awaits a continuation leaves the route to it. -/
theorem drain_routes (ops : List OpId) (s : ContextCore) (nodup : ops.Nodup) {op : OpId}
    (reached : op ∈ s.reached ops)
    (awaits : (s.cell op).awaitsContinuation = true) :
    (s.drain ops).1.continuationTarget = some op := by
  induction ops generalizing s with
  | nil => simp [ContextCore.reached] at reached
  | cons q ops ih =>
    obtain ⟨fresh, nodup⟩ := List.nodup_cons.mp nodup
    simp only [ContextCore.reached] at reached
    simp only [drain]
    split
    · rename_i written
      rw [if_pos written] at reached
      exact ih s nodup reached awaits
    · rename_i unwritten
      rw [if_neg unwritten] at reached
      split
      · rename_i empty
        rw [if_pos empty] at reached
        split
        · rename_i waits
          simp [waits] at reached
        · rename_i free
          rw [if_neg free] at reached
          exact ih s nodup reached awaits
      · rename_i segment
        rw [if_neg segment] at reached
        split
        · rename_i wall
          rw [if_pos wall] at reached
          cases List.mem_singleton.mp reached
          exact (stage_target s op _).trans (if_pos awaits)
        · rename_i free
          rw [if_neg free] at reached
          simp only [Bool.or_eq_true, not_or, Bool.not_eq_true] at free
          have behind := (List.mem_cons.mp reached).resolve_left fun same => by
            rw [same, free.1] at awaits
            cases awaits
          have others : ∀ i ∈ ops, (s.stage q (s.cell q).nextSegment).cell i = s.cell i := by
            intro i member
            rw [stage_cell, if_neg]
            rintro rfl
            exact fresh member
          refine ih _ nodup ?_ ?_
          · rwa [reached_congr others]
          · rwa [others op ((reached_sublist s ops).subset behind)]

theorem flushLoop_keeps_route (number : Nat) (ops : List OpId) (s : ContextCore)
    (routed : s.continuationTarget ≠ none) :
    (s.flushLoop number ops).1.continuationTarget ≠ none := by
  induction ops generalizing s with
  | nil => exact routed
  | cons p ops ih =>
    rw [flushLoop_cons]
    split
    · exact ih s routed
    · rename_i op found
      have turned : (s.flushOne number op).continuationTarget ≠ none := by
        rw [flushOne_target]
        split
        · simp
        · exact routed
      simp only
      split
      · exact ih _ (by rwa [extract_eq])
      · exact ih _ turned

end ContextCore

theorem Cleared.unique {core : ContextCore} (cleared : Cleared core) {op q : OpId}
    (queued : op ∈ core.writeQueue)
    (queued' : q ∈ core.writeQueue) (started : core.sent op ≠ []) (started' : core.sent q ≠ [])
    (awaits : (core.cell op).awaitsContinuation = true)
    (awaits' : (core.cell q).awaitsContinuation = true) : q = op := by
  obtain ⟨ahead, behind, queue⟩ := List.append_of_mem queued
  rw [Cleared, queue] at cleared
  obtain ⟨-, later, apart⟩ := List.pairwise_append.mp cleared
  rw [queue] at queued'
  rcases List.mem_append.mp queued' with before | after
  · simp [apart q before op List.mem_cons_self started] at awaits'
  · rcases List.mem_cons.mp after with same | after
    · exact same
    · simp [(List.pairwise_cons.mp later).1 q after started'] at awaits

theorem Followed.unchallenged {core : ContextCore} (followed : Followed core) {op : OpId}
    (made : op < core.made)
    {c : AuthenticateCommand} (request : (core.cell op).request = .authenticate c)
    (awaits : (core.cell op).awaitsContinuation = true) : .continued ∉ history op core.log := by
  rcases followed op made with none | ⟨rendered, p, track⟩
  · simp [request, Request.render, Command.progress] at none
  · have start := track.start
    simp only [request, Request.render, Command.progress, Option.some.injEq] at start
    have shape : rendered.unlocked = 1 ∧ rendered.segments.length ≤ 2 := by
      rw [← start]
      simp only [Segmented.progress, Segmented.length_segments, AuthenticateCommand.render]
      split <;> simp
    have unlocked := track.unlocked
    have within := track.awaits.symm.trans awaits
    simp only [Progress.awaits, decide_eq_true_eq, track.segments] at within
    have none : continuations (history op core.log) = 0 := by omega
    exact List.count_eq_zero.mp none

def Wired (core : ContextCore) : Prop :=
  core.phase = .opened → ∀ op ∈ core.writeQueue, ∀ c, (core.cell op).request = .authenticate c →
    (core.cell op).awaitsContinuation = true → core.sent op ≠ [] → core.continuationTarget = some op

namespace Wired

variable {core : ContextCore} {pending others : List Work} {sec : Section} {o : Outcome}

theorem readLoop_log {op : OpId} {text : Bytes} {rest : List Bytes} {r : ContinuationRequest}
    (parsed : Parser.parse text = some (.continuation r)) (target : core.continuationTarget = some op)
    (found : core.deref op = some op) :
    (core.readLoop (text :: rest)).core.log = core.log ++ [.continued op] ∧
      (core.readLoop (text :: rest)).left = [.postKick, .readLoop rest] := by
  have cell : { core with continuationTarget := none }.deref op = some op := found
  simp [ContextCore.readLoop, ContextCore.dispatch, parsed, ContextCore.dispatchContinuation,
    target, cell]

theorem replied (custody : Custody core pending) {p op : OpId} (queued : op ∈ core.writeQueue)
    (address : core.sameAddress p op = true) : op ∉ (core.extractFromQueueLocked p).1.writeQueue := by
  unfold ContextCore.extractFromQueueLocked
  cases found : core.queueFind p with
  | none => exact absurd address (List.find?_eq_none.mp found op queued)
  | some q =>
    obtain ⟨queued', address'⟩ := ContextCore.queueFind_some found
    have addresses : (core.cell q).addr = (core.cell op).addr := by
      rw [← address']
      simpa [ContextCore.sameAddress] using address
    cases custody.distinct q (custody.queue_live queued') op (custody.queue_live queued) addresses
    exact custody.nodup_queue.not_mem_erase

theorem kicked (runs : Section.Runs core (.work .kick .go) o) (grounded : Grounded core pending)
    (cleared' : Cleared o.core) (wired : Wired core) (opened : core.phase = .opened) {op : OpId}
    (before : op ∈ core.writeQueue) (queued : op ∈ o.core.writeQueue) {c : AuthenticateCommand}
    (request : (core.cell op).request = .authenticate c)
    (awaits : (o.core.cell op).awaitsContinuation = true)
    (awaits' : (core.cell op).awaitsContinuation = true) (started : o.core.sent op ≠ []) :
    o.core.continuationTarget = some op := by
  have nodup := grounded.custody.nodup_queue
  have held : core.sent op ≠ [] → core.continuationTarget = some op :=
    wired opened op before c request awaits'
  have staged := runs.stagings nodup
  cases runs
  cases flying : core.writeInFlight with
  | true =>
    have same : core.kick = { core } := by simp [ContextCore.kick, flying]
    rw [same] at started ⊢
    exact held started
  | false =>
    have route : core.kick.core.continuationTarget =
        (core.newDrain.drain core.writeQueue).1.continuationTarget := by
      simp only [ContextCore.kick, opened, flying, ne_eq, not_true, Bool.false_eq_true,
        or_self, if_false]
      split <;> rfl
    have drains : core.kick.core.drains = core.drains + 1 := by
      have drained := (core.kicked nodup).drains
      simp only [ContextCore.kick, opened, flying, ne_eq, not_true, Bool.false_eq_true,
        or_self, if_false]
      split <;> exact drained
    have kicked := (staged.resolve_left fun idle => by simp [drains] at idle).2.2.2
    by_cases reached : op ∈ core.reached core.writeQueue
    · rw [route]
      exact ContextCore.drain_routes _ _ nodup (by rwa [core.newDrain_reached]) awaits'
    · rw [kicked.sent nodup, if_neg reached, List.append_nil] at started
      have kept : core.kick.core.continuationTarget ≠ none := by
        rw [route]
        exact ContextCore.drain_keeps_route _ _ (by simp [held started])
      obtain ⟨p, now⟩ := Option.ne_none_iff_exists'.mp kept
      rcases kicked.target p now with same | ⟨reached', waits⟩
      · exact now.trans (same.symm.trans (held started))
      · have later :
          core.kick.core.sent op ≠ [] := by rwa [kicked.sent nodup, if_neg reached, List.append_nil]
        have began : core.kick.core.sent p ≠ [] := by simp [kicked.sent nodup, reached']
        have queued' := kicked.queue.symm ▸ (core.reached_sublist core.writeQueue).subset reached'
        have waits' : (core.kick.core.cell p).awaitsContinuation = true := by
          rw [kicked.cell, if_pos reached']
          exact waits
        exact cleared'.unique queued queued' later began awaits waits' ▸ now

theorem preserved (runs : sec.Runs core o) (consumed : pending.Perm (sec.consumed ++ others))
    (grounded : Grounded core pending) (routed : Routed core pending) (lived : Lived core pending)
    (aimed : Aimed core pending) (sole : Sole core pending) (cleared : Cleared core)
    (followed : Followed core)
    (stamped : Stamped core) (wired : Wired core) : Wired o.core := by
  have custody := grounded.custody
  have cleared' := cleared.preserved runs consumed grounded routed lived
  have followed' := followed.preserved runs consumed grounded routed lived aimed sole stamped
  intro opened op queued c request awaits started
  have opened' := runs.controls.opens opened
  have before : op ∈ core.writeQueue := by
    rcases runs.queue with lost | ⟨q, post, enters, -, grown⟩
    · exact lost.subset queued
    · refine (List.mem_append.mp (grown.subset queued)).resolve_right fun new => started ?_
      rw [List.mem_singleton.mp new, ContextCore.sent,
        Cleared.entering runs consumed grounded routed lived enters]
      rfl
  have made := grounded.queue_made before
  have live := custody.queue_live before
  have step := grounded.cell_step consumed runs made
  have unchallenged := followed'.unchallenged (runs.heap.1 ▸ Nat.lt_add_right _ made) request awaits
  have request' : (core.cell op).request = .authenticate c := (runs.fixed made).request ▸ request
  have awaits' : (core.cell op).awaitsContinuation = true := by
    rcases step.awaits (Stays.running (.inl before) grounded.ledger consumed)
      with same | ⟨_, _, -, -, -, log⟩
    · exact same ▸ awaits
    · exact absurd (log ▸ List.mem_append_right _ List.mem_cons_self) unchallenged
  have sent :
    core.sent op = o.core.sent op ∨ sec = .work .kick .go ∧ op ∈ core.reached core.writeQueue :=
    step.staged.imp_left Eq.symm
  by_cases kick : sec = .work .kick .go
  · subst kick
    exact kicked runs grounded cleared' wired opened' before queued request' awaits awaits' started
  have target :=
    wired opened' op before c request' awaits' (sent.resolve_right (fun drains =>
    kick drains.1) ▸ started)
  cases runs.routes consumed grounded with
  | idle _ _ _ _ same =>
    rcases same with same | ⟨none, text, rest, r, rfl, parsed⟩
    · exact same.trans target
    · cases runs
      have logged : (core.readLoop (text :: rest)).core.log = core.log ++ [.continued op] :=
        (readLoop_log parsed target (custody.deref_eq live)).1
      refine absurd ?_ unchallenged
      rw [logged, history_append]
      exact List.mem_append_right _ (by simp [history, Event.about])
  | register _ _ _ _ _ _ same | revoke _ _ _ _ _ _ same | withdraw _ _ _ _ _ _ _ _ _ _ _ same
  | detach _ _ _ _ _ _ _ _ _ _ _ same | lift _ _ _ _ _ same => exact same.trans target
  | retire _ _ _ torn | drop _ _ torn => exact absurd opened' torn
  | purge _ _ draining | close _ draining => simp [draining] at opened
  | reply texts tag p _ found registry queue other =>
    refine (other op).mpr ⟨target, ?_⟩
    by_contra address
    rw [Bool.not_eq_false] at address
    exact replied custody before address (queue ▸ queued)
  | flush batch _ retired _ flushed =>
    have kept : o.core.continuationTarget ≠ none := by
      cases runs
      simp only [ContextCore.writeFlushed, opened', if_true]
      exact ContextCore.flushLoop_keeps_route _ _ _ (by simp [target])
    obtain ⟨p, now⟩ := Option.ne_none_iff_exists'.mp kept
    rcases flushed.target p now with same | ⟨hit, waits⟩
    · exact now.trans (same.symm.trans target)
    · have token : batch ∈ batchesOf pending :=
        Grounded.consumed_batch consumed (by simp [Section.consumed, Work.batch?])
      have own := sole.hit custody aimed token hit
      have queued' := (ContextCore.mem_hits hit).1
      obtain ⟨number, segment, traced⟩ := lived.traced p (grounded.queue_made queued') own.2
      have started' : core.sent p ≠ [] := List.ne_nil_of_mem (List.mem_filterMap.mpr ⟨_, traced, rfl⟩)
      have unflushed := (Operation.awaitsContinuation_flushed _).symm.trans waits
      have same := cleared.unique before queued'
        (sent.resolve_right (fun drains => kick drains.1) ▸ started) started' awaits' unflushed
      exact same ▸ now
  | kick => exact absurd rfl kick

theorem of_run {s : System} (run : GuardedRun Spared s) : Wired s.core :=
  run.invariant (fun core _ => Wired core) (fun _ _ _ _ wired => wired) (by simp [Wired])
    fun _ _ _ _ earlier consumed wired _ runs =>
      wired.preserved runs consumed (.of_run earlier) (.of_run earlier) (.of_run earlier)
        (.of_run earlier)
        (.of_run earlier) (.of_run earlier) (.of_run earlier) (.of_run earlier)

end Wired

/-- What is to be staged of an AUTHENTICATE that was challenged `n` times: its line, the payload for
    the first challenge if the line does not carry it, and the cancellation line for each of the
    others. -/
def AuthenticateCommand.exchange (c : AuthenticateCommand) (tag : Tag) (n : Nat) : List Bytes :=
  (c.render tag).segments.take (1 + n) ++
    List.replicate (1 + n - (c.render tag).segments.length) (ascii "*\r\n")

def ContextCore.challengeable (core : ContextCore) (op : OpId) : Bool :=
  (core.cell op).awaitsContinuation && core.sent op ≠ []

/-- What a challenge meets with: it is handed to the command and the pump is kicked, or it ends the
    connection. Each one that was handed over is answered once the context comes to rest. -/
structure ChallengesAnswered (s : System) (op : OpId) (c : AuthenticateCommand) : Prop where
  handed : ∀ text rest r, Parser.parse text = some (.continuation r) →
    ((s.core.readLoop (text :: rest)).core.log = s.core.log ++ [.continued op] ∧
      (s.core.readLoop (text :: rest)).left = [.postKick, .readLoop rest] ↔
      s.core.challengeable op = true)
  ordered : s.core.sent op <+: (c.render (s.core.cell op).tag).segments
  answered : s.Quiescent → s.core.writeInFlight = false → s.core.kickPosted = false →
    s.core.sent op ≠ [] →
    s.core.sent op = c.exchange (s.core.cell op).tag (continuations (history op s.core.log))

def Unhindered (core : ContextCore) (pending : List Work) (sec : Section) : Prop :=
  Spared core pending sec ∧ Scheduled core pending sec

instance (core : ContextCore) (pending : List Work) (sec : Section) :
    Decidable (Unhindered core pending sec) :=
  inferInstanceAs (Decidable (_ ∧ _))

theorem ContextCore.begun {core : ContextCore} {op : OpId} (earned : history op core.log ≠ [])
    (own : Automaton.Causal OwnFlush (history op core.log))
    (unchallenged : .continued ∉ history op core.log) :
    core.sent op ≠ [] := by
  unfold ContextCore.sent
  cases log : history op core.log with
  | nil => exact absurd log earned
  | cons event events =>
    rw [log] at own unchallenged
    cases event with
    | staged number segment => simp [stagedSegments, CellEvent.segment?]
    | flushed number => exact absurd ⟨number, events, rfl⟩ (OwnFlush.stray own)
    | «continued» => simp at unchallenged

/-- A challenge is handed to an AUTHENTICATE exactly when the command waits for it, and is answered
    then. -/
theorem challenges_answered {s : System} (run : GuardedRun Unhindered s)
    (opened : s.core.phase = .opened) {op : OpId}
    (queued : op ∈ s.core.writeQueue) {c : AuthenticateCommand}
    (request : (s.core.cell op).request = .authenticate c) :
    ChallengesAnswered s op c := by
  have spared : GuardedRun Spared s := run.mono fun _ _ allowed sec selected => (allowed sec selected).1
  have scheduled : GuardedRun Scheduled s :=
    run.mono fun _ _ allowed sec selected => (allowed sec selected).2
  have grounded := Grounded.of_run run
  have custody := grounded.custody
  have made := grounded.queue_made queued
  have followed := Followed.of_run spared
  obtain ⟨rendered, p, track⟩ :=
    (followed op made).resolve_left (by simp [request, Request.render, Command.progress])
  have start : (c.render (s.core.cell op).tag).progress = rendered := by
    have start := track.start
    rwa [request, Request.render, Command.progress, Option.some.injEq] at start
  have segments : (c.render (s.core.cell op).tag).segments = rendered.segments :=
    congrArg Progress.segments start
  refine ⟨fun text rest r parsed => ?_, ?_, fun quiescent idle unposted started => ?_⟩
  · constructor
    · rintro ⟨logged, -⟩
      cases target : s.core.continuationTarget with
      | none => simp [ContextCore.readLoop, ContextCore.dispatch, parsed,
          ContextCore.dispatchContinuation, target] at logged
      | some q =>
        obtain ⟨-, awaits, stays⟩ := (Routed.of_run run).route q target
        have found := custody.deref_eq (stays.live custody)
        rw [(Wired.readLoop_log parsed target found).1, List.append_cancel_left_eq] at logged
        cases logged
        simp only [ContextCore.challengeable, awaits, Bool.true_and, decide_eq_true_eq]
        exact ContextCore.begun ((Aimed.of_run run).earned op target) (OwnFlush.of_run spared op)
          (followed.unchallenged made request awaits)
    · intro waits
      simp only [ContextCore.challengeable, Bool.and_eq_true, decide_eq_true_eq] at waits
      have target := Wired.of_run spared opened op queued c request waits.1 waits.2
      exact Wired.readLoop_log parsed target (custody.deref_eq (custody.queue_live queued))
  · rw [segments, ContextCore.sent, track.staged]
    exact List.take_prefix _ _
  · have rest := (Roused.of_run scheduled).at_rest opened quiescent idle unposted queued started
    have unstaged := Sealed.unstaged grounded idle queued
    have stamped := (Stamped.of_run run).filled (ContextCore.tag_stamped made)
    have initial := Request.render_initial stamped track.start
    have one : rendered.unlocked = 1 := by
      rw [← start]
      simp only [Segmented.progress, AuthenticateCommand.render]
      split <;> rfl
    have unlocked := track.unlocked
    have within := track.segments ▸ track.within
    have all : p.emitted = p.unlocked := by
      by_contra behind
      have ahead : p.emitted < p.unlocked := Nat.lt_of_le_of_ne track.emitted behind
      have bound : p.emitted < p.segments.length := Nat.lt_of_lt_of_le ahead track.within
      rw [track.nextSegment unstaged, Progress.next, if_pos ahead,
        List.getElem?_eq_getElem bound] at rest
      exact initial.filled _ (track.segments ▸ List.getElem_mem bound) rest
    have none : 1 + continuations (history op s.core.log) - rendered.segments.length = 0 := by omega
    rw [AuthenticateCommand.exchange, segments, none, ContextCore.sent, track.staged, unstaged, all,
      unlocked, one]
    simp

def plainCommand (saslIr : Bool) : AuthenticateCommand :=
  { mechanism := ascii "PLAIN", response := [0, 97, 0, 98], saslIr }

def payloadSent : List Action :=
  flushed (.authenticate (plainCommand false)) ++ [Action.resume 1 (.data [ascii "+ "]),
    .resume 1 .go, .resume 1 .go, .resume 1 .go, .resume 1 .go, .resume 1 .go, .resume 7 .done,
    .resume 7 .go, .resume 7 .go, .resume 7 .go, .resume 9 .done, .resume 9 .go, .resume 9 .go]

theorem challenges_answered_plain :
    ∃ s, GuardedRun Unhindered s ∧ s.core.phase = .opened ∧ 0 ∈ s.core.writeQueue ∧
    (s.core.cell 0).request = .authenticate (plainCommand false) ∧ s.Quiescent ∧
    s.core.writeInFlight = false ∧ s.core.kickPosted = false ∧
    continuations (history 0 s.core.log) = 1 ∧ ChallengesAnswered s 0 (plainCommand false) := by
  obtain ⟨s, run, here⟩ := GuardedRun.of_trace Unhindered payloadSent
    (fun s => decide (s.core.phase = .opened ∧ 0 ∈ s.core.writeQueue ∧
      (s.core.cell 0).request = .authenticate (plainCommand false) ∧ s.Quiescent ∧
      s.core.writeInFlight = false ∧ s.core.kickPosted = false ∧
      continuations (history 0 s.core.log) = 1)) (by decide)
  obtain ⟨opened, queued, request, quiescent, idle, unposted, once⟩ := of_decide_eq_true here
  exact ⟨s, run, opened, queued, request, quiescent, idle, unposted, once,
    challenges_answered run opened queued request⟩

/-- A challenge after the initial response finds no route and ends the connection. -/
theorem sasl_ir_challenge_fails : ¬ ∀ s, imapContext.Reachable s → s.core.phase = .opened → ∀ op c,
    s.core.writeQueue = [op] → (s.core.cell op).request = .authenticate c → s.core.sent op ≠ [] →
      ∀ text rest r, Parser.parse text = some (.continuation r) →
      (s.core.readLoop (text :: rest)).left ≠ [.readLost] := by
  intro claimed
  obtain ⟨s, reached, here⟩ :=
    imapContext.reachable_of_trace (flushed (.authenticate (plainCommand true)))
    (fun s => decide (s.core.phase = .opened ∧ s.core.writeQueue = [0] ∧
      (s.core.cell 0).request = .authenticate (plainCommand true) ∧ s.core.sent 0 ≠ [] ∧
        (s.core.readLoop [ascii "+ "]).left = [.readLost])) (by decide)
  obtain ⟨opened, alone, request, sent, lost⟩ := of_decide_eq_true here
  exact claimed s reached opened 0 _ alone request sent (ascii "+ ") [] ⟨[]⟩ (by decide) lost

end Bkmail
