import Bkmail.Context.Routing
import Bkmail.Context.Transport

namespace Bkmail

/-! The write under way is the next thing its thread runs. -/

namespace Section

theorem Runs.left_tail {s : ContextCore} {sec : Section} {o : Outcome} (runs : sec.Runs s o) :
    batchesOf o.left.tail = [] := by
  have quiet : batchesOf sec.consumed = [] → sec ≠ .work .kick .go → batchesOf o.left.tail = [] := by
    intro none other
    refine List.eq_nil_iff_forall_not_mem.mpr fun batch member => ?_
    obtain ⟨work, left, token⟩ := List.mem_filterMap.mp member
    have produced : batch ∈ batchesOf o.produced :=
      List.mem_filterMap.mpr ⟨work, List.mem_append_left _ (List.mem_of_mem_tail left), token⟩
    rcases runs.batch_source produced with used | ⟨kicks, -⟩
    · simp [none] at used
    · exact other kicks
  have tail : ∀ works, batchesOf works = [] → batchesOf works.tail = [] := by
    intro works none
    exact List.filterMap_eq_nil_iff.mpr fun work member =>
      List.filterMap_eq_nil_iff.mp none work (List.mem_of_mem_tail member)
  cases runs with
  | kick =>
    unfold ContextCore.kick
    split
    · rfl
    · simp only
      split <;> rfl
  | writeDone batch => rfl
  | writeError batch ec => rfl
  | writeQuiet batch => rfl
  | armWrite batch =>
    unfold ContextCore.armWrite
    split
    · exact tail _ (ContextCore.tokens_retire _ _).1
    · rfl
  | writeFlushed batch =>
    unfold ContextCore.writeFlushed
    split
    · exact tail _ (by simp [ContextCore.tokens_stops, Work.batch?])
    · exact tail _ (ContextCore.tokens_retire _ _).1
  | _ => exact quiet rfl (by simp)

end Section

def TokensLead (s : System) : Prop := ∀ thread ∈ s.threads, batchesOf thread.tail = []

theorem TokensLead.preserved {s t : System} {action : Action} (lead : TokensLead s)
    (stepped : s.step action = some t) : TokensLead t := by
  have armed : ∀ (works : List Work), ∀ thread ∈ works.map ([·]), batchesOf thread.tail = [] := by
    intro works thread member
    obtain ⟨work, -, rfl⟩ := List.mem_map.mp member
    rfl
  cases action with
  | call call =>
    obtain ⟨o, ran, rfl⟩ := Option.map_eq_some_iff.mp stepped
    intro thread member
    simp only [List.append_assoc, List.mem_append, List.mem_singleton] at member
    rcases member with old | rfl | new
    · exact lead thread old
    · exact (Section.runs_of_call ran).left_tail
    · exact armed _ thread new
  | resume i choice =>
    simp only [System.step] at stepped
    split at stepped
    · rename_i work rest head
      obtain ⟨o, ran, rfl⟩ := Option.map_eq_some_iff.mp stepped
      have waiting : batchesOf rest = [] := lead _ (List.mem_of_getElem? head)
      intro thread member
      rcases List.mem_append.mp member with old | new
      · rcases List.mem_or_eq_of_mem_set old with old | rfl
        · exact lead thread old
        · cases left : o.left with
          | nil =>
            exact List.filterMap_eq_nil_iff.mpr fun work member =>
              List.filterMap_eq_nil_iff.mp waiting work (List.mem_of_mem_tail member)
          | cons first more =>
            have later := (Section.runs_of_work ran).left_tail
            rw [left] at later
            simp only [List.tail_cons] at later
            simp [later, waiting]
      · exact armed _ thread new
    · cases stepped

theorem TokensLead.of_reachable {s : System} (reached : imapContext.Reachable s) : TokensLead s :=
  Automaton.Machine.Guarded.invariant TokensLead (by simp [TokensLead, imapContext])
    (fun _ _ _ _ lead _ stepped => lead.preserved stepped) reached

theorem TokensLead.thread {s : System} (lead : TokensLead s) {batch : Batch}
    (pends : batch ∈ batchesOf s.pending) :
    ∃ i : Nat, ∃ work : Work, ∃ rest, s.threads[i]? = some (work :: rest) ∧
    work.batch? = some batch := by
  obtain ⟨work, member, token⟩ := List.mem_filterMap.mp pends
  obtain ⟨thread, threads, member⟩ := List.mem_flatten.mp member
  obtain ⟨i, here⟩ := List.mem_iff_getElem?.mp threads
  cases thread with
  | nil => simp at member
  | cons head rest =>
    rcases List.mem_cons.mp member with rfl | later
    · exact ⟨i, _, rest, here, token⟩
    · have none := lead _ threads
      have absent := List.filterMap_eq_nil_iff.mp none work later
      simp [token] at absent

theorem System.step_head {s : System} {i : Nat} {work : Work} {rest : List Work} {choice : Choice}
    {o : Outcome}
    (head : s.threads[i]? = some (work :: rest)) (ran : work.run s.core choice = some o) :
    imapContext.step s (.resume i choice) =
      some ⟨o.core, s.threads.set i (o.left ++ rest) ++ o.armed.map ([·])⟩ := by
  simp [imapContext, System.step, head, ran]

/-! What the write under way takes with it when it succeeds at once. -/

section Ends

variable {start x : System} (i : Nat) (batch : Batch) (rest : List Work)

theorem flushed_ends (reached : imapContext.Reachable start) (leads : imapContext.Leads start x)
    (opened : x.core.phase = .opened) (head : x.threads[i]? = some (.writeFlushed batch :: rest)) :
    ∃ y, imapContext.Leads start y ∧ batchesOf y.pending = [] ∧ ∀ op ∈ x.core.writeQueue,
      (op ∈ x.core.hits batch.ops → ContextCore.retires (x.core.cell op) = false) →
      op ∈ y.core.writeQueue := by
  have grounded := Grounded.of_run (GuardedRun.of_reachable (leads.reachable reached))
  have pends : batch ∈ batchesOf x.pending := by
    refine List.mem_filterMap.mpr ⟨.writeFlushed batch, ?_, rfl⟩
    exact List.mem_flatten.mpr ⟨_, List.mem_of_getElem? head, List.mem_cons_self⟩
  have flushed := ContextCore.flushLoop_flushed batch.number batch.ops x.core.unlatchWrite
    grounded.custody.nodup_queue (grounded.batched.apart batch pends)
  have agrees := ContextCore.flushLoop_agrees batch.number batch.ops x.core.unlatchWrite
  have outcome : Work.run x.core (.writeFlushed batch) .go =
      some { core := (x.core.unlatchWrite.flushLoop batch.number batch.ops).1
             left := (x.core.unlatchWrite.flushLoop batch.number batch.ops).2.map
               .postCompleteStopped ++ [.kick] } := by
    simp [Work.run, ContextCore.writeFlushed, opened]
  have leads' := leads.next (System.step_head head outcome)
  refine ⟨_, leads', ?_, fun op queued stays => ?_⟩
  · exact (Latched.of_run (GuardedRun.of_reachable (leads'.reachable reached))).no_batch
      agrees.writeInFlight
  · simp only [flushed.queue]
    refine List.mem_filter.mpr ⟨queued, ?_⟩
    have spared : op ∈ x.core.unlatchWrite.hits batch.ops →
      ContextCore.retires (x.core.unlatchWrite.cell op) = false :=
      stays
    simpa [← imp_iff_not_or] using spared

theorem written_ends (reached : imapContext.Reachable start) (leads : imapContext.Leads start x)
    (opened : x.core.phase = .opened) (head : x.threads[i]? = some (.writing batch :: rest)) :
    ∃ y, imapContext.Leads start y ∧ batchesOf y.pending = [] ∧ ∀ op ∈ x.core.writeQueue,
      (op ∈ x.core.hits batch.ops → ContextCore.retires (x.core.cell op) = false) →
      op ∈ y.core.writeQueue := by
  have latched := Latched.of_run (GuardedRun.of_reachable (leads.reachable reached))
  have present : x.core.abandoned = false := by
    by_contra gone
    exact latched.abandoned (by simpa using gone) opened
  have outcome : Work.run x.core (.writing batch) .done =
      some { core := x.core, left := [.writeFlushed batch] } := by
    simp [Work.run, ContextCore.onWriteDone, present]
  have bound := (List.getElem?_eq_some_iff.mp head).1
  have ends := flushed_ends i batch rest reached (leads.next (System.step_head head outcome)) opened
    (by simp [bound])
  exact ends

theorem armed_ends (reached : imapContext.Reachable start) (leads : imapContext.Leads start x)
    (opened : x.core.phase = .opened) (head : x.threads[i]? = some (.armWrite batch :: rest)) :
    ∃ y, imapContext.Leads start y ∧ batchesOf y.pending = [] ∧ ∀ op ∈ x.core.writeQueue,
      (op ∈ x.core.hits batch.ops → ContextCore.retires (x.core.cell op) = false) →
      op ∈ y.core.writeQueue := by
  have latched := Latched.of_run (GuardedRun.of_reachable (leads.reachable reached))
  have present : x.core.abandoned = false := by
    by_contra gone
    exact latched.abandoned (by simpa using gone) opened
  have outcome : Work.run x.core (.armWrite batch) .go =
      some { core := x.core.emit [.writeArmed batch.number], armed := [.writing batch] } := by
    simp [Work.run, ContextCore.armWrite, present, opened]
  have ends :=
    written_ends x.threads.length batch [] reached (leads.next (System.step_head head outcome))
    opened (by simp)
  exact ends

/-- From an open state the write under way can end and leave every cell that it does not retire. -/
theorem write_ends (reached : imapContext.Reachable start) (leads : imapContext.Leads start x)
    (opened : x.core.phase = .opened) : ∃ y, imapContext.Leads start y ∧ batchesOf y.pending = [] ∧
      ∀ op ∈ x.core.writeQueue, (∀ batch ∈ batchesOf x.pending, op ∈ x.core.hits batch.ops →
        ContextCore.retires (x.core.cell op) = false) → op ∈ y.core.writeQueue := by
  have run := GuardedRun.of_reachable (leads.reachable reached)
  cases under : batchesOf x.pending with
  | nil => exact ⟨x, leads, under, fun op queued _ => queued⟩
  | cons batch more =>
    have pends : batch ∈ batchesOf x.pending := by simp [under]
    have ends : ∀ y : List OpId, (∀ op ∈ x.core.writeQueue, (op ∈ x.core.hits batch.ops →
        ContextCore.retires (x.core.cell op) = false) → op ∈ y) → ∀ op ∈ x.core.writeQueue,
        (∀ batch' ∈ batch :: more, op ∈ x.core.hits batch'.ops →
          ContextCore.retires (x.core.cell op) = false) → op ∈ y :=
      fun y stays op queued spared => stays op queued (spared batch List.mem_cons_self)
    obtain ⟨i, work, rest, head, token⟩ := (TokensLead.of_reachable (leads.reachable reached)).thread pends
    have member : work ∈ x.pending := List.mem_flatten.mpr ⟨_, List.mem_of_getElem? head, List.mem_cons_self⟩
    cases work with
    | armWrite other =>
      cases (token : some other = some batch)
      obtain ⟨y, later, none, stays⟩ := armed_ends i batch rest reached leads opened head
      exact ⟨y, later, none, ends _ stays⟩
    | writing other =>
      cases (token : some other = some batch)
      obtain ⟨y, later, none, stays⟩ := written_ends i batch rest reached leads opened head
      exact ⟨y, later, none, ends _ stays⟩
    | writeFlushed other =>
      cases (token : some other = some batch)
      obtain ⟨y, later, none, stays⟩ := flushed_ends i batch rest reached leads opened head
      exact ⟨y, later, none, ends _ stays⟩
    | writeQuiet other => exact absurd opened ((Latched.of_run run).abandoned ((Ledger.of_run run).quiet other member))
    | _ => cases token

end Ends

/-! What it takes with it in whatever order things happen. -/

theorem Custody.mem_hits {core : ContextCore} {pending : List Work} (custody : Custody core pending)
    {op p : OpId}
    {ops : List OpId} (queued : op ∈ core.writeQueue) (member : p ∈ ops)
    (same : (core.cell p).addr = (core.cell op).addr) : op ∈ core.hits ops := by
  refine List.mem_filterMap.mpr ⟨p, member, ?_⟩
  have alike : core.sameAddress p = core.sameAddress op := by
    funext q
    simp only [ContextCore.sameAddress, same]
  simpa only [ContextCore.queueFind, alike] using custody.queueFind_eq queued

theorem Operation.SameWire.retires {c d : Operation} (same : c.SameWire d) :
    ContextCore.retires d = ContextCore.retires c := by
  simp only [ContextCore.retires, Operation.onSegmentFlushed, Operation.isWritten, same.command,
    same.detached]

/-- A cell that was queued, and that leaves the queue with one of `batches` if it is still there. -/
def Doomed (batches : List Batch) (op : OpId) (core : ContextCore) (pending : List Work) : Prop :=
  op ∈ enqueuedOps core.log ∧ (op ∈ core.writeQueue → ∃ batch ∈ batches, batch ∈ batchesOf pending ∧
    op ∈ core.hits batch.ops ∧ ContextCore.retires (core.cell op) = true)

theorem Doomed.preserved {batches : List Batch} {op : OpId} {core : ContextCore}
    {pending others : List Work}
    {sec : Section} {o : Outcome} (doomed : Doomed batches op core pending) (runs : sec.Runs core o)
    (consumed : pending.Perm (sec.consumed ++ others)) (grounded : Grounded core pending)
    (after : Custody o.core (o.produced ++ others)) (routed : Routed core pending) :
    Doomed batches op o.core (o.produced ++ others) := by
  obtain ⟨enqueued, leaves⟩ := doomed
  have kept : op ∈ enqueuedOps o.core.log ∧ (op ∈ o.core.writeQueue → op ∈ core.writeQueue) := by
    rcases runs.enqueues with ⟨same, lost⟩ | ⟨new, post, rfl, -, same, grown⟩
    · exact ⟨same ▸ enqueued, fun queued => lost.subset queued⟩
    · refine ⟨by simp [same, enqueued], fun queued => ?_⟩
      rcases List.mem_append.mp (grown.subset queued) with old | itself
      · exact old
      · cases List.mem_singleton.mp itself
        exact absurd (Grounded.consumed_mem consumed (List.mem_singleton.mpr rfl))
          (grounded.enlisted.once _ enqueued post)
  refine ⟨kept.1, fun queued => ?_⟩
  have before := kept.2 queued
  obtain ⟨batch, under, pends, hit, gone⟩ := leaves before
  have custody := grounded.custody
  have made := grounded.queue_made before
  obtain ⟨-, p, member, address⟩ := ContextCore.mem_hits hit
  have found : op ∈ o.core.hits batch.ops := by
    refine after.mem_hits queued member ?_
    rw [(runs.fixed made).addr, (runs.fixed (grounded.batched.made batch pends p member)).addr]
    exact address
  -- The batch is still under way, or its end would have taken the cell out of the queue.
  have flying : batch ∈ batchesOf (o.produced ++ others) := by
    have pends' : batch ∈ batchesOf (sec.consumed ++ others) := (batchesOf_perm consumed).subset pends
    rw [batchesOf_append] at pends' ⊢
    rcases List.mem_append.mp pends' with used | waiting
    · rcases runs.settles used custody.nodup_queue (grounded.batched.apart batch pends)
        with again | settled
      · exact List.mem_append_left _ again
      · exact absurd gone (by simp [(settled op hit queued).2])
    · exact List.mem_append_right _ waiting
  refine ⟨batch, under, flying, found, ?_⟩
  have detached : (core.cell op).detached = true := by
    simp only [ContextCore.retires, Bool.and_eq_true] at gone
    exact gone.1
  have unregistered : core.phase = .opened → ∀ tag p, ContextCore.lookup core.registry tag = some p →
      core.deref p = some op → False := by
    intro opened tag q entry cell
    rw [Routed.deref_eq custody (routed.held opened) entry] at cell
    cases cell
    simp [routed.attached _ (ContextCore.mem_of_lookup entry)] at detached
  cases grounded.cell_step consumed runs made with
  | same wire => exact wire.retires.trans gone
  | stage _ _ idle =>
    rw [grounded.latched.no_batch idle] at pends
    simp at pends
  | flush other ran opened hit' =>
    subst ran
    have used : other ∈ batchesOf (Section.consumed (.work (.writeFlushed other) .go)) := by
      simp [Section.consumed, Work.batch?]
    have apart := grounded.batched.apart other (Grounded.consumed_batch consumed used)
    rcases runs.settles used custody.nodup_queue apart with again | settled
    · cases runs
      simp [ContextCore.writeFlushed, opened, Outcome.produced, ContextCore.tokens_stops,
        Work.batch?] at again
    · exact absurd gone (by simp [(settled op hit' queued).2])
  | «continue» _ _ _ q _ _ target cell =>
    obtain ⟨-, awaits, stays⟩ := routed.route q target
    rw [custody.deref_eq (stays.live custody)] at cell
    cases cell
    simp [ContextCore.awaits_of_retires gone] at awaits
  | done c tag _ q idle _ _ opened entry _ cell => exact absurd cell (unregistered opened tag q entry)
  | detach c tag _ q _ _ opened entry cell => exact absurd cell (unregistered opened tag q entry)
  | tagged r ends =>
    exact absurd (by simp [ends, Section.ended]) (Stays.running (.inl before) grounded.ledger consumed)

/-- No cell of the tag that was queued in `s` is queued any more once the write that was under way
    there is over, in whatever run from `t`. -/
def Retired (s t : System) (tag : Tag) : Prop :=
  ∀ later, imapContext.Leads t later →
    (∀ batch ∈ batchesOf s.pending, batch ∉ batchesOf later.pending) →
    ∀ op ∈ s.core.writeQueue, (s.core.cell op).tag = tag → op ∉ later.core.writeQueue

/-- The queued cells that the reply to `tag` does not find, and that do not leave with the write
    under way either. -/
def Stuck (s : System) (tag : Tag) (op : OpId) : Prop :=
  (tag, op) ∉ s.core.registry ∧ ∀ batch ∈ batchesOf s.pending, op ∈ s.core.hits batch.ops →
    ContextCore.retires (s.core.cell op) = false

theorem Doomed.of_leads {t later : System} {batches : List Batch} {op : OpId}
    (reached : imapContext.Reachable t)
    (doomed : Doomed batches op t.core t.pending) (leads : imapContext.Leads t later) :
    Doomed batches op later.core later.pending := by
  refine leads.invariant (fun s => Doomed batches op s.core s.pending) doomed ?_
  intro before after action earlier doomed stepped
  have run := GuardedRun.of_reachable (earlier.reachable reached)
  have later := Custody.of_run (GuardedRun.of_reachable ((earlier.next stepped).reachable reached))
  obtain ⟨sec, o, others, -, ran, same, consumed, produced⟩ := System.step_section stepped
  have runs := Section.runs ran
  rw [same] at later ⊢
  have next := doomed.preserved runs consumed (.of_run run) (later.permuted produced) (.of_run run)
  refine ⟨next.1, fun queued => ?_⟩
  obtain ⟨batch, under, pends, hit, gone⟩ := next.2 queued
  exact ⟨batch, under, (batchesOf_perm produced.symm).subset pends, hit, gone⟩

theorem dispatchTagged_queue {core : ContextCore} {pending : List Work} (custody : Custody core pending)
    (routed : Routed core pending) (opened : core.phase = .opened) (r : TaggedResponse)
    (rest : List Bytes) {op : OpId}
    (queued : op ∈ core.writeQueue) :
    op ∈ (core.dispatchTagged r rest).core.writeQueue ↔ (r.tag, op) ∉ core.registry := by
  rw [ContextCore.dispatchTagged_core]
  cases found : ContextCore.lookup core.registry r.tag with
  | none => simpa [queued] using fun entry => ContextCore.lookup_none found _ entry rfl
  | some p =>
    have entry := ContextCore.mem_of_lookup found
    have same :
      ((core.forget r.tag p).extractFromQueueLocked p).1.writeQueue = core.writeQueue.erase p :=
      (ContextCore.extract_congr (s := core) (t := core.forget r.tag p) rfl rfl p).trans
        (custody.extract_queue ((routed.held opened _ entry).live custody))
    have only : (r.tag, op) ∈ core.registry ↔ op = p := by
      constructor
      · intro other
        exact congrArg Prod.snd (List.inj_on_of_nodup_map routed.keys other entry rfl)
      · rintro rfl
        exact entry
    rw [only, Option.elim_some, same, custody.nodup_queue.mem_erase_iff]
    exact and_iff_left queued

theorem dispatchTagged_keeps (core : ContextCore) (r : TaggedResponse) (rest : List Bytes) :
    (core.dispatchTagged r rest).core.cell = core.cell ∧ (core.dispatchTagged r rest).core.phase =
    core.phase ∧ (core.dispatchTagged r rest).core.log = core.log := by
  rw [ContextCore.dispatchTagged_core]
  cases ContextCore.lookup core.registry r.tag with
  | none => exact ⟨rfl, rfl, rfl⟩
  | some p =>
    rw [Option.elim_some, ContextCore.extract_eq]
    exact ⟨rfl, rfl, rfl⟩

/-- In the open phase the reply to a tag takes the cells of the tag out of the queue, at the latest
    with the write under way, exactly if none of them is stuck. -/
theorem reply_retires {s t : System} {i : Nat} {text : Bytes} {rest : List Bytes} {more : List Work}
    {r : TaggedResponse} (reached : imapContext.Reachable s) (opened : s.core.phase = .opened)
    (head : s.threads[i]? = some (.readLoop (text :: rest) :: more))
    (parsed : Parser.parse text = some (.tagged r))
    (stepped : imapContext.step s (.resume i .go) = some t) :
    Retired s t r.tag ↔ ∀ op ∈ s.core.writeQueue, (s.core.cell op).tag = r.tag →
    ¬ Stuck s r.tag op := by
  have reached' : imapContext.Reachable t := reached.next True.intro stepped
  have grounded := Grounded.of_run (GuardedRun.of_reachable reached)
  have grounded' := Grounded.of_run (GuardedRun.of_reachable reached')
  have routed := Routed.of_run (GuardedRun.of_reachable reached)
  have ran : Work.run s.core (.readLoop (text :: rest)) .go = some (s.core.dispatchTagged r rest) := by
    simp [Work.run, ContextCore.readLoop, ContextCore.dispatch, parsed]
  obtain ⟨cell, phase, log⟩ := dispatchTagged_keeps s.core r rest
  have left {op : OpId} (queued : op ∈ s.core.writeQueue) :=
    dispatchTagged_queue grounded.custody routed opened r rest queued
  obtain ⟨core, batches⟩ : t.core = (s.core.dispatchTagged r rest).core ∧
      ∀ batch, batch ∈ batchesOf t.pending ↔ batch ∈ batchesOf s.pending := by
    have step : s.step (.resume i .go) = some t := stepped
    obtain ⟨sec, o, others, selected, outcome, same, consumed, produced⟩ := System.step_section step
    simp only [System.section?, head, Option.bind_some, List.head?_cons, Option.map_some,
      Option.some.injEq] at selected
    subst selected
    cases ran.symm.trans outcome
    refine ⟨same, fun batch => ?_⟩
    have none := (ContextCore.dispatchTagged_controls s.core r rest).2.1
    rw [(batchesOf_perm produced).mem_iff, (batchesOf_perm consumed).mem_iff]
    simp [none, Section.consumed, Work.batch?]
  have hits : ∀ op ∈ s.core.writeQueue, (r.tag, op) ∉ s.core.registry → ∀ ops, op ∈ t.core.hits ops ↔
      op ∈ s.core.hits ops := by
    intro op queued missed ops
    have queued' : op ∈ t.core.writeQueue := core ▸ (left queued).mpr missed
    constructor
    · intro hit
      obtain ⟨-, p, member, same⟩ := ContextCore.mem_hits hit
      rw [core, cell] at same
      exact grounded.custody.mem_hits queued member same
    · intro hit
      obtain ⟨-, p, member, same⟩ := ContextCore.mem_hits hit
      refine grounded'.custody.mem_hits queued' member ?_
      rw [core, cell]
      exact same
  constructor
  · intro retired op queued stamped stuck
    obtain ⟨missed, spared⟩ := stuck
    obtain ⟨later, leads, none, stays⟩ := write_ends reached' .here (by rw [core, phase, opened])
    refine retired later leads (by simp [none]) op queued stamped
      (stays op (core ▸ (left queued).mpr missed) ?_)
    intro batch pends hit
    rw [core, cell]
    exact spared batch ((batches batch).mp pends) ((hits op queued missed batch.ops).mp hit)
  · intro free later leads past op queued stamped remains
    have doomed : Doomed (batchesOf s.pending) op t.core t.pending := by
      refine ⟨?_, fun queued' => ?_⟩
      · rw [core, log]
        exact grounded.enlisted.ordered.subset queued
      · have missed := (left queued).mp (core ▸ queued')
        have unstuck := free op queued stamped
        simp only [Stuck, missed, not_false_eq_true, true_and, not_forall, Bool.not_eq_false] at unstuck
        obtain ⟨batch, pends, hit, gone⟩ := unstuck
        refine ⟨batch, pends, (batches batch).mpr pends, (hits op queued missed batch.ops).mpr hit, ?_⟩
        rw [core, cell]
        exact gone
    obtain ⟨batch, under, flying, -⟩ := (doomed.of_leads reached' leads).2 remains
    exact past batch under flying

def noopReplied : List Action := noopInFlight ++ [Action.resume 1 (.data [ascii "a0001 OK done"])]

theorem reply_retires_noop : ∃ s t, imapContext.Reachable s ∧ s.core.writeQueue = [0] ∧
    imapContext.step s (.resume 1 .go) = some t ∧
      (Retired s t (tagText 1) ↔
        ∀ op ∈ s.core.writeQueue, (s.core.cell op).tag = tagText 1 → ¬ Stuck s (tagText 1) op) := by
  obtain ⟨s, reached, here⟩ := imapContext.reachable_of_trace noopReplied
    (fun s : System => decide (s.core.phase = .opened ∧ s.core.writeQueue = [0] ∧
      s.threads[1]? = some [Work.readLoop [ascii "a0001 OK done"]] ∧
      (imapContext.step s (.resume 1 .go)).isSome = true)) (by decide)
  obtain ⟨opened, queue, head, steps⟩ := of_decide_eq_true here
  obtain ⟨t, stepped⟩ := Option.isSome_iff_exists.mp steps
  have parsed : Parser.parse (ascii "a0001 OK done") =
      some (.tagged ⟨tagText 1, .ok, none, ascii "done"⟩) := by
    decide
  exact ⟨s, t, reached, queue, stepped, reply_retires reached opened head parsed stepped⟩

/-- An APPEND cancelled while it waits for its continuation, and then refused by the server. -/
def appendRefused : List Action :=
  inFlight (.append { mailbox := ascii "box", message := ascii "m" }) ++
    [.resume 6 .done, .resume 6 .go, .resume 6 .go, .call (.cancel (tagText 1)),
      .resume 1 (.data [ascii "a0001 NO denied"])]

/-- The refused APPEND has no entry any more, so its cell stays in the queue. -/
theorem reply_leaves_wall : ∃ s t, imapContext.Reachable s ∧ s.core.phase = .opened ∧
    s.threads[1]? = some [.readLoop [ascii "a0001 NO denied"]] ∧
    imapContext.step s (.resume 1 .go) = some t ∧
    0 ∈ s.core.writeQueue ∧ (s.core.cell 0).tag = tagText 1 ∧
    .staged 1 0 (ascii "a0001 APPEND box \x7b1\x7d\r\n") ∈ s.core.log ∧ ¬ Retired s t (tagText 1) := by
  obtain ⟨s, reached, here⟩ := imapContext.reachable_of_trace appendRefused
    (fun s : System => decide (s.core.phase = .opened ∧
      s.threads[1]? = some [Work.readLoop [ascii "a0001 NO denied"]] ∧
      0 ∈ s.core.writeQueue ∧ (s.core.cell 0).tag = tagText 1 ∧
      Event.staged 1 0 (ascii "a0001 APPEND box \x7b1\x7d\r\n") ∈ s.core.log ∧
      batchesOf s.pending = [] ∧ (imapContext.step s (.resume 1 .go)).map (·.core.writeQueue) =
      some [0])) (by decide)
  obtain ⟨opened, head, queued, stamped, staged, idle, stays⟩ := of_decide_eq_true here
  obtain ⟨t, stepped, remains⟩ := Option.map_eq_some_iff.mp stays
  refine ⟨s, t, reached, opened, head, stepped, queued, stamped, staged, fun retired => ?_⟩
  exact retired t .here (by simp [idle]) 0 queued stamped (by simp [remains])

end Bkmail
