import Bkmail.Context.Lives
import Bkmail.Context.Deliveries
import Bkmail.Context.Closing

namespace Bkmail

/-- `cancel(tag)`, or the stop token of a cell, at the cell that the registry has for the tag. -/
def Call.Hits (c : Call) (s : ContextCore) (p : OpId) : Prop :=
  ∃ tag expected, c.cancels s = some (tag, expected) ∧ ContextCore.lookup s.registry tag = some p ∧
    expected.all (s.sameAddress p) = true

/-- The cells that a cancellation takes out of the queue at once: never flushed and awaiting
    nothing, or fully written and not an IDLE. -/
def Operation.withdrawable (c : Operation) : Bool :=
  !c.awaitsContinuation && (!c.hasWritten && !c.isWritten || c.isWritten && c.cancelWritten.isNone)

theorem Operation.SameWire.withdrawable {c d : Operation} (same : c.SameWire d) :
    d.withdrawable = c.withdrawable := by
  simp only [Operation.withdrawable, Operation.cancelWritten, Option.isNone_map,
    same.awaitsContinuation, same.hasWritten, same.isWritten, same.command]

theorem Section.Runs.cancels {s : ContextCore} {c : Call} {o : Outcome}
    (runs : (Section.call c).Runs s o) {tag : Tag}
    {expected : Option OpId} (cancels : c.cancels s = some (tag, expected)) :
    ∃ t : ContextCore, o = t.cancelWith tag expected ∧ s.Agrees t ∧ t.writeQueue = s.writeQueue ∧
    t.log = s.log ∧ ∀ op, (s.cell op).SameWire (t.cell op) := by
  cases runs with
  | cancel other =>
    cases cancels
    exact ⟨s, rfl, .refl s, rfl, rfl, fun _ => .refl _⟩
  | requestStop op =>
    cases cancels
    refine ⟨s.modify op fun c => { c with stopSeen := true }, rfl,
      s.modify_agrees op _ fun _ => ⟨rfl, rfl, rfl, rfl⟩, rfl, rfl, ?_⟩
    exact (s.modify_quiet op _ ⟨⟨rfl, rfl, rfl, rfl⟩, rfl, rfl, rfl, rfl, id⟩).cells
  | _ => simp [Call.cancels] at cancels

namespace ContextCore

variable {s : ContextCore} {tag : Tag} {expected : Option OpId} {p : OpId}

/-- What becomes of a queued cell that is hit by a cancellation and is in no write. -/
theorem cancelWith_hit (opened : s.phase = .opened) (found : lookup s.registry tag = some p)
    (itself : expected.all (s.sameAddress p) = true) (cell : s.deref p = some p)
    (queue : s.queueFind p = some p)
    (unstaged : (s.cell p).isStaged = false) :
    (s.cell p).withdrawable = true ∧ (s.cancelWith tag expected).core =
        { s with writeQueue := s.writeQueue.erase p, registry := erase s.registry tag } ∧
      (s.cancelWith tag expected).produced = [.postCompleteStopped p] ∨
    (s.cell p).withdrawable = false ∧ (s.cancelWith tag expected).core.writeQueue = s.writeQueue := by
  have hit : expected.any (fun op => !s.sameAddress p op) = false := by
    cases expected <;> simp_all
  have taken :
      s.extractFromQueueLocked p = ({ s with writeQueue := s.writeQueue.erase p }, some p) := by
    simp only [extractFromQueueLocked, queue]
  simp only [cancelWith, opened, ne_eq, not_true_eq_false, if_false, findAndDetachLocked, found, hit,
    Bool.false_eq_true, detachLocked, cell, taken]
  split
  · rename_i never
    simp only [Bool.and_eq_true, Bool.not_eq_true'] at never
    exact .inl ⟨by simp [Operation.withdrawable, never], rfl, rfl⟩
  · rename_i bytes
    split
    · rename_i cancelled cancels
      refine .inr ⟨?_, rfl⟩
      cases written : (s.cell p).isWritten <;> cases fresh : (s.cell p).hasWritten <;>
        simp_all [Operation.withdrawable]
    · rename_i plain
      split
      · rename_i written
        have parked := written
        simp only [Operation.isWritten, Bool.and_eq_true, Bool.not_eq_true'] at parked
        refine .inl ⟨?_, rfl, rfl⟩
        have waits : (s.cell p).awaitsContinuation = false := parked.1.2
        simp [Operation.withdrawable, waits, written, plain]
      · rename_i unwritten
        refine .inr ⟨?_, rfl⟩
        cases fresh : (s.cell p).hasWritten <;> simp_all [Operation.withdrawable]

end ContextCore

namespace Section

theorem Runs.grows {s : ContextCore} {sec : Section} {o : Outcome} (runs : sec.Runs s o) :
    ∃ events, o.core.log = s.log ++ events := by
  obtain ⟨acted, acts, quiet⟩ := runs.acts
  obtain ⟨later, logged, -⟩ := quiet.log
  have earlier : ∃ events, acted.log = s.log ++ events := by
    cases acts with
    | enqueue | flushCall | terminate | onTagged | continuation => exact ⟨_, rfl⟩
    | kick =>
      obtain ⟨events, logged, -⟩ := ContextCore.drain_logs s.writeQueue s.newDrain
      exact ⟨events, logged⟩
    | flush batch =>
      obtain ⟨events, logged, -⟩ := ContextCore.flushLoop_logs batch.number batch.ops s.unlatchWrite
      exact ⟨events, logged⟩
    | nothing | allocateTag | attach | requestDone | detach | dispose =>
        exact ⟨[], (List.append_nil _).symm⟩
  obtain ⟨events, acted⟩ := earlier
  exact ⟨events ++ later, by rw [logged, acted, List.append_assoc]⟩

theorem Runs.ended_here {s : ContextCore} {sec : Section} {o : Outcome}
    (runs : sec.Runs s o) {op : OpId}
    {call : Terminal} (logged : .terminal op call ∈ o.core.log) :
    .terminal op call ∈ s.log ∨ op ∈ sec.ended := by
  obtain ⟨events, grown⟩ := runs.grows
  have ends := runs.ends
  rw [grown, List.flatMap_append, List.append_cancel_left_eq] at ends
  rw [grown] at logged
  rcases List.mem_append.mp logged with old | new
  · exact .inl old
  · refine .inr ?_
    rw [← ends]
    exact List.mem_flatMap.mpr ⟨_, new, List.mem_singleton.mpr rfl⟩

theorem Runs.staged_here {s : ContextCore} {sec : Section} {o : Outcome} (runs : sec.Runs s o)
    (nodup : s.writeQueue.Nodup) {number : Nat} {op : OpId} {segment : Bytes}
    (logged : .staged number op segment ∈ o.core.log) :
    .staged number op segment ∈ s.log ∨ op ∈ s.writeQueue := by
  have found : (number, op, segment) ∈ Bkmail.stagings o.core.log :=
    List.mem_filterMap.mpr ⟨_, logged, rfl⟩
  rcases runs.stagings nodup with ⟨same, -⟩ | ⟨-, -, -, kicked⟩
  · rw [same] at found
    obtain ⟨event, logged, staging⟩ := List.mem_filterMap.mp found
    cases event <;> simp_all [Event.staging?]
  · rw [kicked.stagings] at found
    rcases List.mem_append.mp found with old | new
    · obtain ⟨event, logged, staging⟩ := List.mem_filterMap.mp old
      cases event <;> simp_all [Event.staging?]
    · obtain ⟨q, reached, same⟩ := List.mem_map.mp new
      cases same
      exact .inr ((ContextCore.reached_sublist s s.writeQueue).subset reached)

end Section

def Work.stops (op : OpId) (w : Work) : Prop := w = .postCompleteStopped op ∨ w = .stopScheduled op

/-- A cell that was taken out before any of its bytes was staged: it is not queued, and only its
    stop is still to come, or came. -/
structure Gone (op : OpId) (core : ContextCore) (pending : List Work) : Prop where
  made : op < core.made
  queue : op ∉ core.writeQueue
  owed : ∀ w ∈ pending, op ∈ w.owes → w.stops op
  once : (pending.flatMap Work.owes).count op + (core.log.flatMap Event.ends).count op = 1
  unstaged : ∀ number segment, .staged number op segment ∉ core.log
  stopped : ∀ call, .terminal op call ∈ core.log → call = .stopped

namespace Gone

variable {op : OpId} {core : ContextCore} {pending others : List Work} {sec : Section} {o : Outcome}

theorem permuted {after : List Work} (perm : pending.Perm after) (gone : Gone op core pending) :
    Gone op core after :=
  { gone with
    owed := fun w pends => gone.owed w (perm.symm.subset pends)
    once := by rw [← (perm.flatMap_right Work.owes).count_eq]; exact gone.once }

theorem owes_stops {w : Work} (stops : w.stops op) : w.owes = [op] := by
  rcases stops with rfl | rfl <;> rfl

theorem bystander (runs : sec.Runs core o) (gone : Gone op core pending)
    (foreign : op ∉ sec.consumed.flatMap Work.owes) :
    op ∉ o.core.writeQueue ∧ op ∉ o.produced.flatMap Work.owes ∧ op ∉ sec.ended := by
  have unmade : op ∉ sec.attaches core := by
    intro member
    have made := gone.made
    cases runs <;> simp_all [Section.attaches]
  have absent : op ∉ core.writeQueue ++ sec.consumed.flatMap Work.owes ++ sec.attaches core := by
    simp [gone.queue, foreign, unmade]
  rw [runs.owes.mem_iff] at absent
  simp only [List.mem_append, not_or] at absent
  exact ⟨absent.1.1.1, absent.1.1.2, absent.1.2⟩

theorem preserved (runs : sec.Runs core o) (consumed : pending.Perm (sec.consumed ++ others))
    (custody : Custody core pending) (gone : Gone op core pending) :
    Gone op o.core (o.produced ++ others) := by
  have grows : core.made ≤ o.core.made := runs.heap.1 ▸ Nat.le_add_right _ _
  have before := gone.permuted consumed
  have unstaged : ∀ number segment, .staged number op segment ∉ o.core.log := by
    intro number segment logged
    rcases runs.staged_here custody.nodup_queue logged with old | queued
    · exact gone.unstaged number segment old
    · exact gone.queue queued
  have waiting : ∀ w ∈ others, op ∈ w.owes → w.stops op := fun w pends =>
    before.owed w (List.mem_append_right _ pends)
  have once := before.once
  simp only [List.flatMap_append, List.count_append] at once
  by_cases carries : op ∈ sec.consumed.flatMap Work.owes
  · obtain ⟨w, runs', owes⟩ := List.mem_flatMap.mp carries
    have stops := before.owed w (List.mem_append_left _ runs') owes
    obtain ⟨choice, rfl⟩ : ∃ choice, sec = .work w choice := by
      cases sec with
      | call => simp [Section.consumed] at runs'
      | work w' choice => exact ⟨choice, by rw [List.mem_singleton.mp runs']⟩
    have alone : (Section.work w choice).consumed.flatMap Work.owes = [op] := by
      simp [Section.consumed, owes_stops stops]
    rw [alone] at once
    rcases stops with rfl | rfl
    · cases runs
      refine ⟨gone.made, gone.queue, ?_, ?_, unstaged, gone.stopped⟩
      · intro v pends owes
        rcases List.mem_append.mp pends with produced | other
        · exact .inr (List.mem_singleton.mp produced)
        · exact waiting v other owes
      · simp [Outcome.produced, Work.owes] at once ⊢
        omega
    · have ends := runs.ends
      cases runs
      refine ⟨Nat.lt_of_lt_of_le gone.made grows, by simpa using gone.queue, ?_, ?_, unstaged, ?_⟩
      · intro v pends owes
        rcases List.mem_append.mp pends with produced | other
        · rw [List.mem_singleton.mp produced] at owes
          simp [Work.owes] at owes
        · exact waiting v other owes
      · rw [ends]
        simp [Outcome.produced, Work.owes, Section.ended] at once ⊢
        omega
      · intro call logged
        have quiet := ContextCore.deliverStopped_quiet (core.emit [.terminal op .stopped]) op
        obtain ⟨events, grown, inert⟩ := quiet.log
        have grown :
          (core.completeStopped op).log = core.log ++ [.terminal op .stopped] ++ events := grown
        simp only [grown, List.mem_append, List.mem_singleton] at logged
        rcases logged with (old | new) | later
        · exact gone.stopped call old
        · cases new
          rfl
        · exact absurd (inert _ later) (by simp [Event.ofCell])
  · obtain ⟨queue, unowed, running⟩ := bystander runs gone carries
    refine ⟨Nat.lt_of_lt_of_le gone.made grows, queue, ?_, ?_, unstaged, ?_⟩
    · intro w pends owes
      rcases List.mem_append.mp pends with produced | other
      · exact absurd (List.mem_flatMap.mpr ⟨w, produced, owes⟩) unowed
      · exact waiting w other owes
    · rw [runs.ends]
      simp only [List.flatMap_append, List.count_append, List.count_eq_zero_of_not_mem unowed,
        List.count_eq_zero_of_not_mem running, List.count_eq_zero_of_not_mem carries] at once ⊢
      omega
    · intro call logged
      exact gone.stopped call ((runs.ended_here logged).resolve_right running)

end Gone

/-- The operation is out of the queue and the registry, no byte of it is ever staged, and its only
    terminal delivery, made or on its way, is the stopped one. -/
structure Withdrawn (t : System) (op : OpId) : Prop where
  queue : op ∉ t.core.writeQueue
  registry : ∀ entry ∈ t.core.registry, entry.2 ≠ op
  unstaged : ∀ later, imapContext.Leads t later →
    ∀ number segment, .staged number op segment ∉ later.core.log
  once : ∀ later, imapContext.Leads t later → (deliveries later).count op = 1
  stopped : ∀ later, imapContext.Leads t later →
    (∀ call, .terminal op call ∈ later.core.log → call = .stopped) ∧ ∀ w ∈ later.pending,
    op ∈ w.delivers → w.stops op

theorem Gone.withdrawn {t : System} {op : OpId} (reached : imapContext.Reachable t)
    (gone : Gone op t.core t.pending)
    (registry : ∀ entry ∈ t.core.registry, entry.2 ≠ op) : Withdrawn t op := by
  have always : ∀ later, imapContext.Leads t later → Gone op later.core later.pending :=
      fun later leads =>
    (GuardedFrom.of_leads leads).invariant (Gone op)
    (fun _ _ _ perm gone => gone.permuted perm) gone reached
      fun s others sec o earlier consumed gone _ runs =>
        gone.preserved runs consumed (.of_run (GuardedRun.of_reachable earlier))
  have delivers : ∀ w : Work, op ∈ w.delivers → op ∈ w.owes := by
    intro w delivers
    cases w <;> simp_all [Work.delivers]
  refine ⟨gone.queue, registry, fun later leads => (always later leads).unstaged, fun later leads => ?_,
    fun later leads => ⟨(always later leads).stopped, fun w pends told => ?_⟩⟩
  · have gone := always later leads
    have registered : ∀ post, .enqueueOperation op post ∉ later.pending := by
      intro post pends
      rcases gone.owed _ pends (List.mem_singleton.mpr rfl) with same | same <;> cases same
    rw [deliveries, List.count_append, count_delivers registered, Nat.add_comm]
    exact gone.once
  · exact (always later leads).owed w pends (delivers w told)

theorem Gone.start {core next : ContextCore} {pending others : List Work}
    (grounded : Grounded core pending) {op : OpId}
    (queued : op ∈ core.writeQueue) (same : pending.Perm others)
    (unstaged : ∀ number segment, .staged number op segment ∉ core.log) (made : next.made = core.made)
    (queue : op ∉ next.writeQueue) (log : next.log = core.log) :
    Gone op next ([.postCompleteStopped op] ++ others) := by
  have running := Stays.unended (.inl queued) grounded.ledger
  have unowed : ∀ w ∈ others, op ∉ w.owes := fun w pends owes =>
    grounded.ledger.not_owed (same.symm.subset pends) owes queued
  refine ⟨made ▸ grounded.queue_made queued, queue, ?_, ?_, log ▸ unstaged, ?_⟩
  · intro w pends owes
    rcases List.mem_cons.mp pends with rfl | other
    · exact .inl rfl
    · exact absurd owes (unowed w other)
  · have none : op ∉ others.flatMap Work.owes := fun owed => by
      obtain ⟨w, pends, owes⟩ := List.mem_flatMap.mp owed
      exact unowed w pends owes
    simp [log, Work.owes, List.count_eq_zero_of_not_mem none, List.count_eq_zero_of_not_mem running]
  · intro call logged
    rw [log] at logged
    exact absurd (List.mem_flatMap.mpr ⟨_, logged, List.mem_singleton.mpr rfl⟩) running

/-- A cancellation that hits an operation none of whose segments was ever staged withdraws it
    exactly if the cell is queued and the cancellation finds it neither waiting nor partly
    written. -/
theorem cancel_withdraws {s t : System} {c : Call} {p : OpId} (reached : imapContext.Reachable s)
    (opened : s.core.phase = .opened) (hits : c.Hits s.core p)
    (unstaged : ∀ number segment, .staged number p segment ∉ s.core.log)
    (stepped : imapContext.step s (.call c) = some t) :
    Withdrawn t p ↔ p ∈ s.core.writeQueue ∧ (s.core.cell p).withdrawable = true := by
  have run := GuardedRun.of_reachable reached
  have grounded := Grounded.of_run run
  have custody := grounded.custody
  have routed := Routed.of_run run
  have held := routed.held opened
  obtain ⟨tag, expected, cancels, found, itself⟩ := hits
  have stays := held _ (ContextCore.mem_of_lookup found)
  have live := stays.live custody
  have reached' : imapContext.Reachable t := reached.next True.intro stepped
  obtain ⟨sec, o, others, selected, ran, same, consumed, produced⟩ :=
    System.step_section (show s.step (.call c) = some t from stepped)
  cases selected
  obtain ⟨core, rfl, agrees, queue, log, wires⟩ := (Section.runs ran).cancels cancels
  by_cases queued : p ∈ s.core.writeQueue
  · have off : (core.cell p).isStaged = false := by
      cases flag : (core.cell p).isStaged with
      | false => rfl
      | true =>
        have flag : (s.core.cell p).segmentStaged = true := (wires p).segmentStaged.symm.trans flag
        obtain ⟨number, segment, member⟩ := (Lived.of_run run).traced p (custody.made p live) flag
        obtain ⟨event, logged, about⟩ := List.mem_filterMap.mp member
        cases event <;> simp_all [Event.about]
    have registry : ContextCore.lookup core.registry tag = some p := agrees.registry ▸ found
    have expects : expected.all (core.sameAddress p) = true := by
      cases expected with
      | none => rfl
      | some q => simpa [agrees.sameAddress p q] using itself
    have cell : core.deref p = some p := (agrees.deref p).trans (custody.deref_eq live)
    have search : core.queueFind p = some p :=
      (agrees.queueFind queue p).trans (custody.queueFind_eq queued)
    rw [← (wires p).withdrawable]
    rcases core.cancelWith_hit (agrees.phase.trans opened) registry expects cell search off with
      ⟨leaves, after, left⟩ | ⟨remains, after⟩
    · refine ⟨fun _ => ⟨queued, leaves⟩, fun _ => Gone.withdrawn reached' ?_ ?_⟩
      · rw [left] at produced
        rw [same, after]
        refine Gone.permuted produced.symm (Gone.start grounded queued consumed unstaged ?_ ?_ ?_)
        · exact agrees.made
        · exact (queue ▸ custody.nodup_queue : core.writeQueue.Nodup).not_mem_erase
        · exact log
      · intro entry member here
        rw [same, after] at member
        have kept := ContextCore.mem_erase.mp member
        have stamped := routed.stamped entry (agrees.registry ▸ kept.1)
        have own := routed.stamped _ (ContextCore.mem_of_lookup found)
        rw [here] at stamped
        exact kept.2 (stamped.symm.trans own)
    · simp only [remains, Bool.false_eq_true, and_false, iff_false]
      intro withdrawn
      refine withdrawn.queue ?_
      rw [same, after, queue]
      exact queued
  · simp only [queued, false_and, iff_false]
    intro withdrawn
    obtain ⟨w, pends, lifted⟩ := List.mem_flatMap.mp (stays.resolve_left queued)
    have waits : w ∈ t.pending := produced.symm.subset (List.mem_append_right _ (consumed.subset pends))
    have stops :=
      (withdrawn.stopped t .here).2 w waits (by cases w <;> simp_all [Work.lifted,
      Work.delivers, Work.owes])
    rcases stops with rfl | rfl <;> simp [Work.lifted] at lifted

def waitsUnsent (s : System) : Bool :=
  decide (s.core.phase = .opened ∧ ContextCore.lookup s.core.registry (tagText 1) = some 0 ∧
    s.core.writeQueue = [0] ∧ stagings s.core.log = []) &&
    (imapContext.step s (.call (.cancel (tagText 1)))).isSome

theorem waitsUnsent_cancel {s : System} (waits : waitsUnsent s = true) :
    s.core.phase = .opened ∧ (Call.cancel (tagText 1)).Hits s.core 0 ∧ s.core.writeQueue = [0] ∧
      (∀ number segment, .staged number 0 segment ∉ s.core.log) ∧
        ∃ t, imapContext.step s (.call (.cancel (tagText 1))) = some t := by
  simp only [waitsUnsent, Bool.and_eq_true, decide_eq_true_eq, Option.isSome_iff_exists] at waits
  obtain ⟨⟨opened, found, queue, none⟩, steps⟩ := waits
  refine ⟨opened, ⟨tagText 1, .none, rfl, found, rfl⟩, queue, fun number segment logged => ?_, steps⟩
  have staged : (number, 0, segment) ∈ stagings s.core.log := List.mem_filterMap.mpr ⟨_, logged, rfl⟩
  simp [none] at staged

theorem cancel_withdraws_noop : ∃ s t, imapContext.Reachable s ∧
    imapContext.step s (.call (.cancel (tagText 1))) = some t ∧ s.core.writeQueue = [0] ∧
    Withdrawn t 0 := by
  obtain ⟨s, reached, here⟩ := imapContext.reachable_of_trace (submitted (.line noopCommand))
    (fun s => waitsUnsent s && (s.core.cell 0).withdrawable) (by decide)
  obtain ⟨waits, leaves⟩ := Bool.and_eq_true_iff.mp here
  obtain ⟨opened, hits, queue, unstaged, t, stepped⟩ := waitsUnsent_cancel waits
  exact ⟨s, t, reached, stepped, queue,
    (cancel_withdraws reached opened hits unstaged stepped).mpr ⟨by simp [queue], leaves⟩⟩

/-- An APPEND with a synchronizing literal waits for its continuation before a byte of it is
    staged. -/
theorem cancel_keeps_append : ∃ s t, imapContext.Reachable s ∧ s.core.phase = .opened ∧
    (Call.cancel (tagText 1)).Hits s.core 0 ∧
    (∀ number segment, .staged number 0 segment ∉ s.core.log) ∧
      imapContext.step s (.call (.cancel (tagText 1))) = some t ∧ ¬ Withdrawn t 0 := by
  obtain ⟨s, reached, here⟩ := imapContext.reachable_of_trace
    (submitted (.append { mailbox := ascii "box", message := ascii "m" }))
    (fun s => waitsUnsent s &&
      (imapContext.step s (.call (.cancel (tagText 1)))).all fun t =>
      t.core.writeQueue.contains 0) (by decide)
  obtain ⟨waits, stays⟩ := Bool.and_eq_true_iff.mp here
  obtain ⟨opened, hits, -, unstaged, t, stepped⟩ := waitsUnsent_cancel waits
  rw [stepped] at stays
  exact ⟨s, t, reached, opened, hits, unstaged, stepped, fun withdrawn =>
    withdrawn.queue (by simpa using stays)⟩

end Bkmail
