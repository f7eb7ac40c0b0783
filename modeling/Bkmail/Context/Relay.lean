import Bkmail.Command.Directives
import Bkmail.Context.Contiguity

namespace Bkmail

open Automaton

/-! What the server is sent when all that is submitted are one-line commands. No step is excluded
here: cells may be replaced while they are in flight, writes may fail, and commands may be cancelled
at any time. -/

namespace ContextCore

theorem reached_cons (s : ContextCore) (q : OpId) (ops : List OpId) :
    s.reached (q :: ops) = s.reached ops ∧ (s.cell q).nextSegment = [] ∨
    s.reached (q :: ops) = q :: s.reached ops ∨ ∀ op ∈ s.reached (q :: ops), op = q := by
  simp only [reached]
  split
  · next written =>
    simp only [Operation.isWritten, Bool.and_eq_true, beq_iff_eq] at written
    exact .inl ⟨rfl, by simp [Operation.nextSegment, written.2]⟩
  · split
    · next none =>
      split
      · exact .inr (.inr (by simp))
      · exact .inl ⟨rfl, none⟩
    · split
      · exact .inr (.inr (by simp))
      · exact .inr (.inl rfl)

theorem reached_ahead {s : ContextCore} {ops : List OpId} (nodup : ops.Nodup) :
    ops.Pairwise fun q op => op ∈ s.reached ops → (s.cell q).nextSegment = [] ∨ q ∈ s.reached ops := by
  induction ops with
  | nil => exact .nil
  | cons q ops ih =>
    obtain ⟨fresh, nodup⟩ := List.nodup_cons.mp nodup
    have tail := ih nodup
    rcases s.reached_cons q ops with ⟨same, none⟩ | past | wall
    · rw [same]
      exact List.pairwise_cons.mpr ⟨fun _ _ _ => .inl none, tail⟩
    · rw [past]
      refine List.pairwise_cons.mpr ⟨fun _ _ _ => .inr List.mem_cons_self, ?_⟩
      refine tail.imp_of_mem fun {p op} _ member apart getting => ?_
      have rest := (List.mem_cons.mp getting).resolve_left fun same => fresh (same ▸ member)
      exact (apart rest).imp_right (List.mem_cons_of_mem q)
    · refine List.pairwise_cons.mpr ⟨fun op member getting => ?_, ?_⟩
      · exact absurd (wall op getting ▸ member) fresh
      · refine tail.imp_of_mem fun {p op} _ member _ getting => ?_
        exact absurd (wall op getting ▸ member) fresh

end ContextCore

/-- The cell of a one-line command: it has sent nothing or its line, and it does not send it
    again. -/
structure Relays (core : ContextCore) (op : OpId) (c : LineCommand) : Prop where
  request : (core.cell op).request = .line c
  sent : ∃ emitted, (core.cell op).command = .line c ((core.cell op).tag ++ c.body) emitted ∧
    (core.sent op = [] ∧ (core.cell op).segmentStaged = false ∨
      core.sent op = [(core.cell op).tag ++ c.body] ∧
      ((core.cell op).segmentStaged = true ∨ emitted = true))

namespace Relays

variable {core : ContextCore} {pending others : List Work} {sec : Section} {o : Outcome} {op : OpId}
    {c : LineCommand}

theorem unsent (relays : Relays core op c) (filled : (core.cell op).nextSegment ≠ []) :
    core.sent op = [] ∧ (core.cell op).nextSegment = (core.cell op).tag ++ c.body := by
  obtain ⟨emitted, command, state⟩ := relays.sent
  simp only [Operation.nextSegment, command, Command.nextSegment] at filled ⊢
  rcases state with ⟨none, unstaged⟩ | ⟨-, staged | written⟩
  · cases emitted <;> simp_all
  · simp [staged] at filled
  · simp [written] at filled

theorem step (relays : Relays core op c) {t : ContextCore} (cell : CellStep core sec t op) :
    Relays t op c := by
  obtain ⟨emitted, command, state⟩ := relays.sent
  cases cell with
  | same wire log =>
    refine ⟨wire.request.trans relays.request, emitted, ?_, ?_⟩
    · rw [wire.command, wire.tag, command]
    · rwa [ContextCore.sent, log, wire.tag, wire.segmentStaged]
  | stage _ _ _ reached wire log =>
    have filled := ContextCore.reached_segment reached
    obtain ⟨none, segment⟩ := relays.unsent filled
    refine ⟨wire.request.trans relays.request, emitted, ?_, .inr ⟨?_, .inl wire.segmentStaged⟩⟩
    · rw [wire.command, wire.tag]
      exact command
    · rw [ContextCore.sent, log, stagedSegments_append, wire.tag]
      change core.sent op ++ [(core.cell op).nextSegment] = _
      rw [none, segment]
      rfl
  | flush batch _ _ _ wire log =>
    have unstaged : (t.cell op).segmentStaged = false := wire.segmentStaged
    refine ⟨wire.request.trans relays.request, true, ?_, ?_⟩
    · rw [wire.command, wire.tag]
      exact congrArg Command.onSegmentFlushed command
    · have sent : t.sent op = core.sent op := by
        rw [ContextCore.sent, log, stagedSegments_append, stagedSegments_flushed, List.append_nil,
          ContextCore.sent]
      rw [sent, wire.tag]
      exact state.imp (And.imp_right fun _ => unstaged) (And.imp_right fun _ => .inr rfl)
  | «continue» _ _ _ _ _ _ _ _ wire log =>
    refine ⟨wire.request.trans relays.request, emitted, ?_, ?_⟩
    · rw [wire.command, wire.tag]
      exact congrArg Command.onContinuation command
    · rw [ContextCore.sent, log, stagedSegments_append, stagedSegments_continued,
        List.append_nil, wire.tag, wire.segmentStaged]
      exact state
  | done _ _ _ _ idle _ _ _ _ _ _ shape => cases shape.symm.trans command
  | detach _ _ _ _ _ _ _ _ _ _ wire log =>
    refine ⟨wire.request.trans relays.request, emitted, ?_, ?_⟩
    · rw [wire.command, wire.tag]
      exact command
    · rw [ContextCore.sent, log, wire.tag, wire.segmentStaged]
      exact state
  | tagged _ _ wire log =>
    refine ⟨wire.request.trans relays.request, emitted, ?_, ?_⟩
    · rw [wire.command, wire.tag]
      exact congrArg Command.afterTagged command
    · rw [ContextCore.sent, log, wire.tag, wire.segmentStaged]
      exact state

theorem silent (relays : Relays core op c) {t : ContextCore} (cell : CellStep core sec t op)
    (quiet : (core.cell op).nextSegment = []) : (t.cell op).nextSegment = [] := by
  obtain ⟨emitted, command, -⟩ := relays.sent
  cases cell with
  | same wire => exact wire.nextSegment.trans quiet
  | stage _ _ _ _ wire =>
      exact wire.nextSegment.trans (by simp [Operation.nextSegment, Operation.onSegmentStaged])
  | flush _ _ _ _ wire =>
    refine wire.nextSegment.trans ?_
    simp [Operation.nextSegment, Operation.onSegmentFlushed, command, Command.onSegmentFlushed,
      Command.nextSegment]
  | «continue» _ _ _ _ _ _ _ _ wire =>
    refine wire.nextSegment.trans ?_
    simpa [Operation.nextSegment, Operation.onContinuation, command, Command.onContinuation] using quiet
  | done _ _ _ _ idle _ _ _ _ _ _ shape => cases shape.symm.trans command
  | detach _ _ _ _ _ _ _ _ _ _ wire => exact wire.nextSegment.trans quiet
  | tagged _ _ wire =>
    refine wire.nextSegment.trans ?_
    simpa [Operation.nextSegment, command, Command.afterTagged] using quiet

theorem of_run {s : System} (reached : imapContext.Reachable s) {op : OpId}
    (made : op < s.core.made) {c : LineCommand}
    (line : (s.core.cell op).request = .line c) : Relays s.core op c := by
  refine (GuardedRun.of_reachable reached).invariant
    (fun core _ => ∀ op < core.made, ∀ c, (core.cell op).request = .line c → Relays core op c)
    (fun _ _ _ _ relays => relays) (fun _ made => absurd made (Nat.not_lt_zero _)) ?_ op made c line
  intro s others sec o earlier consumed relays _ runs op made c line
  rcases runs.newcomer made with old | ⟨tag, request, addr, callbackPath, -, -, rfl, cell, log⟩
  · rw [(runs.fixed old).request] at line
    exact (relays op old c line).step ((Grounded.of_run earlier).cell_step consumed runs old)
  · have unborn := (Lived.of_run earlier).unborn _ (Nat.le_refl _)
    have sent : o.core.sent s.core.made = [] := by rw [ContextCore.sent, log, unborn]; rfl
    rw [cell] at line
    cases (line : request = .line c)
    exact ⟨by rw [cell]; rfl, false, by rw [cell]; rfl, .inl ⟨sent, by rw [cell]; rfl⟩⟩

end Relays

/-- What was staged is what the cells have sent, in the order of submission, and a cell ahead of one
    that has sent its line does not send one any more. -/
structure Relayed (core : ContextCore) : Prop where
  stream : core.stream = (enqueuedOps core.log).flatMap fun op => (core.sent op).map (op, ·)
  settled : (enqueuedOps core.log).Pairwise fun q op => core.sent op ≠ [] → q ∈ core.writeQueue →
    (core.cell q).nextSegment = []

def Lines (core : ContextCore) : Prop := ∀ op < core.made, ∃ c, (core.cell op).request = .line c

namespace Relayed

variable {core : ContextCore} {pending others : List Work} {sec : Section} {o : Outcome}

theorem kicked {t : ContextCore} (grounded : Grounded core pending)
    (relayed : Relayed core) (kicked : core.Kicked t)
    (order : enqueuedOps t.log = enqueuedOps core.log) :
    Relayed t := by
  have nodup := grounded.custody.nodup_queue
  have enlisted := grounded.enlisted
  have reached := core.reached_sublist core.writeQueue
  have sent := kicked.sent nodup
  have missed : ∀ op, op ∉ core.reached core.writeQueue → t.sent op = core.sent op :=
      fun op missed => by
    rw [sent, if_neg missed, List.append_nil]
  refine ⟨?_, ?_⟩
  · have extended : (enqueuedOps core.log).flatMap (fun op => (t.sent op).map (op, ·)) =
        (enqueuedOps core.log).flatMap (fun op => (core.sent op).map (op, ·)) ++
          (core.reached core.writeQueue).map fun op => (op, (core.cell op).nextSegment) := by
      refine flatMap_extend enlisted.nodup (reached.trans enlisted.ordered) (fun op _ member => ?_)
        (fun op member => ?_) (relayed.settled.imp fun {q op} apart member => ?_)
      · simp only [missed op member]
      · simp [sent, member]
      · by_contra filled
        exact ContextCore.reached_segment member (apart (by simpa using filled) (reached.subset member))
    rw [order, extended, ← relayed.stream]
    simp [ContextCore.stream, kicked.stagings]
  · have silenced : ∀ q, (core.cell q).nextSegment = [] ∨ q ∈ core.reached core.writeQueue →
        (t.cell q).nextSegment = [] := by
      intro q quiet
      rw [kicked.cell]
      split
      · simp [Operation.nextSegment, Operation.onSegmentStaged]
      · next unreached => exact quiet.resolve_right unreached
    rw [order]
    refine List.pairwise_iff_forall_sublist.mpr fun {q op} ahead filled queued => silenced q ?_
    rw [kicked.queue] at queued
    by_cases getting : op ∈ core.reached core.writeQueue
    · have inherit :=
        pair_sublist_inherit enlisted.nodup enlisted.ordered ahead queued (reached.subset getting)
      exact List.pairwise_iff_forall_sublist.mp (ContextCore.reached_ahead nodup) inherit getting
    · rw [missed op getting] at filled
      exact .inl (List.pairwise_iff_forall_sublist.mp relayed.settled ahead filled queued)

theorem preserved (runs : sec.Runs core o) (consumed : pending.Perm (sec.consumed ++ others))
    (grounded : Grounded core pending) (lived : Lived core pending)
    (relays : ∀ op < core.made, ∃ c, Relays core op c)
    (relayed : Relayed core) : Relayed o.core := by
  have enlisted := grounded.enlisted
  rcases runs.stagings grounded.custody.nodup_queue with ⟨same, -, -⟩ | ⟨rfl, opened, idle, kicked⟩
  · have sent : ∀ op, o.core.sent op = core.sent op := fun op => by
      rw [ContextCore.sent_stagings, same, ← ContextCore.sent_stagings]
    have silent : ∀ q ∈ enqueuedOps core.log, (core.cell q).nextSegment = [] →
      (o.core.cell q).nextSegment = [] :=
      fun q member quiet =>
        let ⟨_, own⟩ := relays q (enlisted.bound q member)
        own.silent (grounded.cell_step consumed runs (enlisted.bound q member)) quiet
    have kept (queue : ∀ q ∈ enqueuedOps core.log, q ∈ o.core.writeQueue → q ∈ core.writeQueue) :
        (enqueuedOps core.log).Pairwise fun q op => o.core.sent op ≠ [] → q ∈ o.core.writeQueue →
          (o.core.cell q).nextSegment = [] :=
      relayed.settled.imp_of_mem fun {q op} member _ apart filled queued =>
        silent q member (apart (sent op ▸ filled) (queue q member queued))
    rcases runs.enqueues with ⟨order, lost⟩ | ⟨new, post, rfl, -, order, grown⟩
    · refine ⟨?_, order ▸ kept fun q _ queued => lost.subset queued⟩
      simpa only [ContextCore.stream, same, order, sent] using relayed.stream
    · have pends : .enqueueOperation new post ∈ pending :=
        Grounded.consumed_mem consumed List.mem_cons_self
      have fresh : new ∉ enqueuedOps core.log := fun member => enlisted.once new member post pends
      have unsent : core.sent new =
        [] := by simp [ContextCore.sent, (lived.fresh new post pends).1, stagedSegments]
      refine ⟨by simpa [ContextCore.stream, same, order, sent, unsent] using relayed.stream, ?_⟩
      rw [order]
      refine List.pairwise_append.mpr ⟨kept fun q member queued => ?_,
        List.pairwise_singleton _ new, ?_⟩
      · rcases List.mem_append.mp (grown.subset queued) with old | entered
        · exact old
        · exact absurd (List.mem_singleton.mp entered ▸ member) fresh
      · intro q _ op last filled
        rw [List.mem_singleton.mp last, sent, unsent] at filled
        exact absurd rfl filled
  · have order : enqueuedOps o.core.log = enqueuedOps core.log := by
      rcases runs.enqueues with ⟨order, -⟩ | ⟨_, _, enters, -⟩
      · exact order
      · cases enters
    exact relayed.kicked grounded kicked order

theorem of_run {s : System} (reached : imapContext.Reachable s) (lines : Lines s.core) :
    Relayed s.core := by
  refine (GuardedRun.of_reachable reached).invariant (fun core _ => Lines core → Relayed core)
    (fun _ _ _ _ relayed => relayed) (fun _ => ⟨rfl, .nil⟩) ?_ lines
  intro s others sec o earlier consumed relayed _ runs lines
  have before : Lines s.core := fun op made => by
    rw [← (runs.fixed made).request]
    exact lines op (Nat.lt_of_lt_of_le made (runs.heap.1 ▸ Nat.le_add_right _ _))
  refine (relayed before).preserved runs consumed (.of_run earlier) (.of_run earlier) fun op made => ?_
  obtain ⟨c, line⟩ := before op made
  exact ⟨c, .of_run earlier.reachable made line⟩

end Relayed

theorem Numbered.of_reachable {s : System} (reached : imapContext.Reachable s)
    (few : s.core.allocated < 2 ^ 64) :
    Numbered s.core := by
  refine (GuardedRun.of_reachable reached).invariant (fun core _ => core.allocated < 2 ^ 64 →
    Numbered core)
    (fun _ _ _ _ numbered => numbered)
    (fun _ => ⟨by decide, by simp [ContextCore.stamps], by simp [ContextCore.stamps]⟩) ?_ few
  intro s others sec o _ consumed numbered _ runs few
  rcases runs.stamps with ⟨counter, allocated, stamps⟩ | ⟨allocates, -, allocated, -⟩
  · have before := numbered (allocated ▸ few)
    exact ⟨by rw [counter, allocated, before.counter], stamps.nodup_iff.mpr before.distinct,
      fun tag member => allocated ▸ before.numbered tag (stamps.subset member)⟩
  · have sound :
      sec.failsWrite = false := by cases sec <;> simp_all [Section.allocates, Section.failsWrite]
    have bound : s.core.allocated + 1 < 2 ^ 64 := allocated ▸ few
    have regular : Regular s.core s.pending sec := ⟨fun _ => bound, sound⟩
    exact (numbered (Nat.lt_of_succ_lt bound)).preserved runs regular

theorem Relays.bytes {core : ContextCore} {line : OpId → LineCommand} {ops : List OpId}
    (relays : ∀ op ∈ ops, Relays core op (line op)) :
    (ops.flatMap fun op => (core.sent op).map (op, ·)).flatMap (·.2) =
      (ops.filter fun op => core.sent op != []).flatMap fun op =>
      (core.cell op).tag ++ (line op).body := by
  induction ops with
  | nil => rfl
  | cons op ops ih =>
    obtain ⟨own, others⟩ := List.forall_mem_cons.mp relays
    rw [List.flatMap_cons, List.flatMap_append, ih others]
    obtain ⟨-, -, ⟨none, -⟩ | ⟨sent, -⟩⟩ := own.sent
    · rw [List.filter_cons_of_neg (by simp [none]), none]
      rfl
    · rw [List.filter_cons_of_pos (by simp [sent]), List.flatMap_cons, sent]
      simp

theorem Relayed.enqueued {core : ContextCore} (relayed : Relayed core) {op : OpId}
    (sent : core.sent op ≠ []) :
    op ∈ enqueuedOps core.log := by
  obtain ⟨segment, member⟩ := List.exists_mem_of_ne_nil _ sent
  rw [ContextCore.sent_stagings] at member
  obtain ⟨staging, own, rfl⟩ := List.mem_map.mp member
  obtain ⟨staged, same⟩ := List.mem_filter.mp own
  have streamed : staging.2 ∈ core.stream := List.mem_map_of_mem staged
  rw [relayed.stream] at streamed
  obtain ⟨other, member, part⟩ := List.mem_flatMap.mp streamed
  obtain ⟨_, -, pair⟩ := List.mem_map.mp part
  have here : other = op := (congrArg Prod.fst pair).trans (by simpa using same)
  exact here ▸ member

/-- However the calls and the callbacks of a context interleave, if all that is submitted to it are
    one-line commands, then the server reads in what it is sent exactly those that were begun, one
    by one and in the order of submission, each with its own tag and with the arguments it was made
    from. -/
theorem wire_read_back {s : System} (reached : imapContext.Reachable s)
    (few : s.core.allocated < 2 ^ 64)
    {directives : OpId → Directive}
    (lines : ∀ op < s.core.made, (s.core.cell op).request = .line (directives op).command)
    (sound : ∀ op < s.core.made, (directives op).Sound) (rest : Bytes) :
    ∃ ops : List OpId, ops.Sublist (enqueuedOps s.core.log) ∧ (∀ op, op ∈ ops ↔ s.core.sent op ≠ []) ∧
      (ops.map fun op => (s.core.cell op).tag).Nodup ∧
      Server.readCommands ops.length (s.core.stream.flatMap (·.2) ++ rest) =
        some (ops.map fun op => ((s.core.cell op).tag, (directives op).order), rest) := by
  have run := GuardedRun.of_reachable reached
  have enlisted := Enlisted.of_run run
  have numbered := Numbered.of_reachable reached few
  have relayed := Relayed.of_run reached fun op made => ⟨_, lines op made⟩
  have relays : ∀ op ∈ enqueuedOps s.core.log, Relays s.core op (directives op).command :=
      fun op member =>
    .of_run reached (enlisted.bound op member) (lines op (enlisted.bound op member))
  have filtered :=
    List.filter_sublist (p := fun op => s.core.sent op != []) (l := enqueuedOps s.core.log)
  have bound : ∀ op ∈ (enqueuedOps s.core.log).filter fun op => s.core.sent op != [],
    op < s.core.made :=
    fun op member => enlisted.bound op (filtered.subset member)
  refine ⟨(enqueuedOps s.core.log).filter fun op => s.core.sent op != [], filtered,
    fun op => ?_, ?_, ?_⟩
  · rw [List.mem_filter, bne_iff_ne]
    exact ⟨And.right, fun sent => ⟨relayed.enqueued sent, sent⟩⟩
  · refine (enlisted.nodup.filter _).map_on fun p hp q hq same =>
      numbered.unique (bound p hp) (bound q hq) same
  · have read := readCommands_lines
      (((enqueuedOps s.core.log).filter fun op => s.core.sent op != []).map fun op =>
        ((s.core.cell op).tag, directives op))
      (fun command member => ?_) (fun command member => ?_) rest
    · rw [List.length_map, List.flatMap_map, List.map_map] at read
      rw [relayed.stream, Relays.bytes relays]
      exact read
    · obtain ⟨op, own, rfl⟩ := List.mem_map.mp member
      obtain ⟨n, tag⟩ := Stamped.of_run run _ (ContextCore.tag_stamped (bound op own))
      intro c inside
      have atom := tagText_atomChars n c (tag ▸ inside)
      simp [isAstringChar, atom]
    · obtain ⟨op, own, rfl⟩ := List.mem_map.mp member
      exact sound op (bound op own)

/-- Of two NOOPs the second one is made where the first one was, and is flushed with it: the server
    reads the first. -/
theorem wire_read_back_replaced : ∃ s, imapContext.Reachable s ∧ enqueuedOps s.core.log = [0, 1] ∧
    s.core.sent 0 ≠ [] ∧ s.core.sent 1 = [] ∧ ∃ ops : List OpId, ops.Sublist (enqueuedOps s.core.log) ∧
      (∀ op, op ∈ ops ↔ s.core.sent op ≠ []) ∧ (ops.map fun op => (s.core.cell op).tag).Nodup ∧
      Server.readCommands ops.length (s.core.stream.flatMap (·.2) ++ []) =
        some (ops.map fun op => ((s.core.cell op).tag, Directive.noop.order), []) := by
  obtain ⟨s, reached, here⟩ := imapContext.reachable_of_trace replacedInFlight
    (fun s => decide (enqueuedOps s.core.log = [0, 1] ∧ s.core.sent 0 ≠ [] ∧ s.core.sent 1 = [] ∧
      s.core.allocated < 2 ^ 64 ∧ ∀ op < s.core.made,
      (s.core.cell op).request = .line noopCommand)) (by decide)
  obtain ⟨order, first, second, few, lines⟩ := of_decide_eq_true here
  exact ⟨s, reached, order, first, second,
    @wire_read_back s reached few (fun _ => .noop) lines (fun _ _ => True.intro) []⟩

end Bkmail
