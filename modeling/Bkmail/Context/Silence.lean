import Bkmail.Context.Withdrawal

namespace Bkmail

def Separate (core : ContextCore) : Prop :=
  ∀ entry ∈ core.registry, ∀ q ∈ core.writeQueue, (core.cell entry.2).addr = (core.cell q).addr →
    entry.2 = q

theorem Separate.of_run {guard : ContextCore → List Work → Section → Prop} {s : System}
    (run : GuardedRun guard s) :
    Separate s.core := by
  refine run.invariant (fun core _ => Separate core) (fun _ _ _ _ separate =>
    separate) (by simp [Separate]) ?_
  intro s others sec o earlier consumed separate _ runs
  have grounded := Grounded.of_run earlier
  have custody := grounded.custody
  have routed := Routed.of_run earlier
  intro entry member q queued same
  have owned : ∀ op post, sec = .work (.enqueueOperation op post) .go → op ∈ s.core.live := by
    rintro op post rfl
    exact custody.owned_live (Grounded.consumed_mem consumed List.mem_cons_self)
      (List.mem_singleton.mpr rfl)
  have entries := (runs.routes consumed grounded).entries member
  have madeEntry : entry.2 < s.core.made := by
    rcases entries with old | ⟨op, post, itself, -, rfl, -⟩
    · exact routed.bound entry old
    · exact custody.made op (owned op post itself)
  have liveQueue : q ∈ s.core.live := by
    rcases runs.queue with lost | ⟨op, post, itself, -, grown⟩
    · exact custody.queue_live (lost.subset queued)
    · rcases List.mem_append.mp (grown.subset queued) with old | new
      · exact custody.queue_live old
      · exact List.mem_singleton.mp new ▸ owned op post itself
  rw [(runs.fixed madeEntry).addr, (runs.fixed (custody.made q liveQueue)).addr] at same
  by_cases opened : s.core.phase = .opened
  · refine custody.distinct entry.2 ?_ q liveQueue same
    rcases entries with old | ⟨op, post, itself, -, rfl, -⟩
    · exact (routed.held opened entry old).live custody
    · exact owned op post itself
  · rcases entries with old | ⟨-, -, -, now, -⟩
    · rcases runs.queue with lost | ⟨-, -, -, now, -⟩
      · exact separate entry old q (lost.subset queued) same
      · exact absurd now opened
    · exact absurd now opened

def Told (core : ContextCore) : Prop :=
  ∀ op outcome, (op, outcome) ∈ outcomes core.log → op ∈ core.log.flatMap Event.ends

theorem Section.outcomes_ended {s : ContextCore} {sec : Section} {op : OpId} {outcome : Delivery}
    (told : (op, outcome) ∈ sec.outcomes s) : op ∈ sec.ended := by
  unfold Section.outcomes at told
  split at told
  · split at told <;> simp_all [Section.ended]
  · split at told
    · simp at told
    · split at told
      · split at told <;> simp_all [Section.ended]
      · simp_all [Section.ended]
  · split at told
    · simp at told
    · split at told <;> simp_all [Section.ended]
  · simp at told

theorem Told.of_run {guard : ContextCore → List Work → Section → Prop} {s : System}
    (run : GuardedRun guard s) :
    Told s.core := by
  refine run.invariant (fun core _ => Told core) (fun _ _ _ _ told =>
    told) (by simp [Told, outcomes]) ?_
  intro s others sec o _ _ told _ runs op outcome member
  rw [runs.outcomes] at member
  rw [runs.ends]
  rcases List.mem_append.mp member with old | new
  · exact List.mem_append_left _ (told op outcome old)
  · exact List.mem_append_right _ (Section.outcomes_ended new)

theorem CellStep.stopped {s t : ContextCore} {sec : Section} {op : OpId} (step : CellStep s sec t op)
    (stopped : (s.cell op).stopped = true) : (t.cell op).stopped = true := by
  cases step with
  | same wire | stage _ _ _ _ wire | flush _ _ _ _ wire | «continue» _ _ _ _ _ _ _ _ wire
  | done _ _ _ _ _ _ _ _ _ _ _ _ wire | detach _ _ _ _ _ _ _ _ _ _ wire | tagged _ _ wire =>
      exact wire.stopped stopped

/-- A handler that a cancellation has withdrawn: nobody was told anything through it, nothing that
    is pending will fail it, and a tagged reply finds it stopped or not at all. -/
structure Withheld (op : OpId) (core : ContextCore) (pending : List Work) : Prop where
  made : op < core.made
  callback : (core.cell op).callbackPath = true
  silent : ∀ outcome, (op, outcome) ∉ outcomes core.log
  unfailed : ∀ ec, .fail op ec ∉ pending
  unreplied : (core.cell op).stopped = true ∨ (∀ entry ∈ core.registry, entry.2 ≠ op) ∧
    (∀ post, .enqueueOperation op post ∉ pending) ∧ ∀ r, .onTagged op r ∉ pending

namespace Withheld

variable {op : OpId} {core : ContextCore} {pending others : List Work} {sec : Section} {o : Outcome}

theorem permuted {after : List Work} (perm : pending.Perm after) (withheld : Withheld op core pending) :
    Withheld op core after :=
  { withheld with
    unfailed := fun ec pends => withheld.unfailed ec (perm.symm.subset pends)
    unreplied := by
      refine withheld.unreplied.imp_right ?_
      rintro ⟨registry, enqueued, replied⟩
      exact ⟨registry, fun post pends => enqueued post (perm.symm.subset pends),
        fun r pends => replied r (perm.symm.subset pends)⟩ }

/-- Every teardown that does not take the cell to fail leaves the handler alone. -/
theorem preserved (runs : sec.Runs core o) (consumed : pending.Perm (sec.consumed ++ others))
    (grounded : Grounded core pending) (separate : Separate core) (spared : op ∉ sec.fails core)
    (withheld : Withheld op core pending) : Withheld op o.core (o.produced ++ others) := by
  have made := withheld.made
  have before := withheld.permuted consumed
  refine ⟨Nat.lt_of_lt_of_le made (runs.heap.1 ▸ Nat.le_add_right _ _),
    (runs.fixed made).callbackPath.trans withheld.callback, ?_, ?_, ?_⟩
  · intro outcome told
    rw [runs.outcomes] at told
    rcases List.mem_append.mp told with old | new
    · exact withheld.silent outcome old
    · unfold Section.outcomes at new
      split at new
      · rename_i q ec choice
        split at new
        · simp at new
        · cases List.mem_singleton.mp new
          exact before.unfailed ec (by simp [Section.consumed])
      · rename_i q r choice
        split at new
        · simp at new
        · split at new
          · split at new
            · simp at new
            · rename_i receiver
              cases List.mem_singleton.mp new
              exact receiver withheld.callback
          · rename_i running
            cases List.mem_singleton.mp new
            rcases before.unreplied with stopped | ⟨-, -, unreplied⟩
            · exact running stopped
            · exact unreplied r (by simp [Section.consumed])
      · split at new
        · simp at new
        · split at new
          · simp at new
          · rename_i receiver
            cases List.mem_singleton.mp new
            exact receiver withheld.callback
      · simp at new
  · intro ec pends
    rcases List.mem_append.mp pends with produced | other
    · cases runs.hands produced rfl with
      | fail sec op ec taken => exact spared taken
    · exact before.unfailed ec (List.mem_append_right _ other)
  · rcases before.unreplied with stopped | ⟨registry, enqueued, replied⟩
    · exact .inl ((grounded.cell_step consumed runs made).stopped stopped)
    · refine .inr ⟨?_, ?_, ?_⟩
      · intro entry member
        rcases (runs.routes consumed grounded).entries member with old | ⟨q, post, rfl, -, rfl, -⟩
        · exact registry entry old
        · rintro rfl
          exact enqueued post (by simp [Section.consumed])
      · intro post pends
        rcases List.mem_append.mp pends with produced | other
        · cases runs.spawns produced rfl
          exact Nat.lt_irrefl _ made
        · exact enqueued post (List.mem_append_right _ other)
      · intro r pends
        rcases List.mem_append.mp pends with produced | other
        · cases runs.hands produced rfl with
          | reply texts r p op found search =>
            have entry := ContextCore.mem_of_lookup found
            obtain ⟨queued, address⟩ := ContextCore.queueFind_some search
            exact registry _ entry (separate _ entry op queued address)
        · exact replied r (List.mem_append_right _ other)

end Withheld

theorem ContextCore.cancelWith_takes {s : ContextCore} {tag : Tag} {p : OpId}
    (opened : s.phase = .opened)
    (found : lookup s.registry tag = some p) (cell : s.deref p = some p) :
    ((s.cancelWith tag none).core.cell p).stopped = true ∨
      (s.cancelWith tag none).core.registry = erase s.registry tag := by
  have extracted : ((s.extractFromQueueLocked p).1.unregister tag).registry = erase s.registry tag := by
    rw [extract_eq]
    rfl
  simp only [cancelWith, opened, ne_eq, not_true_eq_false, if_false, findAndDetachLocked, found,
    Option.any_none, Bool.false_eq_true, detachLocked, cell]
  split
  · exact .inr extracted
  · split
    · rename_i cancelled cancels
      obtain ⟨command, done, rfl⟩ := Option.map_eq_some_iff.mp cancels
      exact .inl (by simp)
    · split
      · exact .inr extracted
      · exact .inr rfl

/-- A callback handler that `cancel` has taken is never invoked again, as long as no teardown comes
    to fail the cell. -/
theorem cancelled_silent {s t later : System} {tag : Tag} {p : OpId} (reached : imapContext.Reachable s)
    (opened : s.core.phase = .opened) (found : ContextCore.lookup s.core.registry tag = some p)
    (callback : (s.core.cell p).callbackPath = true)
    (stepped : imapContext.step s (.call (.cancel tag)) = some t)
    (follows : GuardedFrom (fun core _ sec => p ∉ sec.fails core) t later) :
    ∀ outcome, .delivered p outcome ∉ later.core.log := by
  have run := GuardedRun.of_reachable reached
  have grounded := Grounded.of_run run
  have custody := grounded.custody
  have routed := Routed.of_run run
  have stays := routed.held opened _ (ContextCore.mem_of_lookup found)
  have made := custody.made p (stays.live custody)
  obtain ⟨sec, o, others, selected, ran, same, consumed, produced⟩ :=
    System.step_section (show s.step (.call (.cancel tag)) = some t from stepped)
  cases selected
  have runs := Section.runs ran
  have waiting : ∀ w ∈ others, p ∈ w.owes → p ∈ w.lifted := fun w pends owes =>
    stays.debtor grounded.ledger (consumed.symm.subset pends) owes
  have quiet : ∀ w ∈ o.produced, w.hands = false := by
    cases runs
    exact fun w pends => ContextCore.cancelWith_handless pends
  have withheld : Withheld p o.core (o.produced ++ others) := by
    refine ⟨Nat.lt_of_lt_of_le made (runs.heap.1 ▸ Nat.le_add_right _ _),
      (runs.fixed made).callbackPath.trans callback, ?_, ?_, ?_⟩
    · intro outcome told
      rw [runs.outcomes] at told
      rcases List.mem_append.mp told with old | new
      · exact stays.unended grounded.ledger (Told.of_run run p outcome old)
      · simp [Section.outcomes] at new
    · intro ec pends
      rcases List.mem_append.mp pends with new | old
      · simpa [Work.hands] using quiet _ new
      · simpa [Work.lifted] using waiting _ old (List.mem_singleton.mpr rfl)
    · have taken : (o.core.cell p).stopped = true ∨
        o.core.registry = ContextCore.erase s.core.registry tag := by
        cases runs
        exact ContextCore.cancelWith_takes opened found (custody.deref_eq (stays.live custody))
      refine taken.imp_right fun registry => ⟨?_, ?_, ?_⟩
      · rintro entry member rfl
        obtain ⟨old, other⟩ := ContextCore.mem_erase.mp (registry ▸ member)
        have own := routed.stamped _ (ContextCore.mem_of_lookup found)
        exact other ((routed.stamped entry old).symm.trans own)
      · intro post pends
        rcases List.mem_append.mp pends with new | old
        · cases runs.spawns new rfl
        · simpa [Work.lifted] using waiting _ old (List.mem_singleton.mpr rfl)
      · intro r pends
        rcases List.mem_append.mp pends with new | old
        · simpa [Work.hands] using quiet _ new
        · simpa [Work.lifted] using waiting _ old (List.mem_singleton.mpr rfl)
  have after := GuardedFrom.invariant (Withheld p) (fun _ _ _ perm withheld => withheld.permuted perm)
    (same ▸ withheld.permuted produced.symm) (reached.next True.intro stepped)
    (fun s others sec o earlier consumed withheld spared runs =>
      withheld.preserved runs consumed (.of_run (GuardedRun.of_reachable earlier))
        (.of_run (GuardedRun.of_reachable earlier)) spared) follows
  exact fun outcome logged => after.silent outcome (mem_outcomes.mpr logged)

def flushed (request : Request) : List Action :=
  inFlight request ++ [Action.resume 6 .done, .resume 6 .go, .resume 6 .go]

def connectionEnds : List Action := [.resume 1 .eof, .resume 1 .go, .resume 1 .go, .resume 1 .go]

/-- A written NOOP is cancelled before the connection ends. -/
theorem cancelled_silent_noop : ∃ s t later, imapContext.Reachable s ∧
    imapContext.step s (.call (.cancel (tagText 1))) = some t ∧
    GuardedFrom (fun core _ sec => 0 ∉ sec.fails core) t later ∧ later.core.phase = .draining ∧
      ∀ outcome, .delivered 0 outcome ∉ later.core.log := by
  obtain ⟨s, reached, here⟩ := imapContext.reachable_of_trace (flushed (.line noopCommand))
    (fun s => decide (s.core.phase = .opened ∧ ContextCore.lookup s.core.registry (tagText 1) = some 0 ∧
      (s.core.cell 0).callbackPath = true) &&
      (imapContext.step s (.call (.cancel (tagText 1)))).any fun t =>
        (imapContext.run (permits fun core _ sec => 0 ∉ sec.fails core) t connectionEnds).map
          (fun later => decide (later.core.phase = .draining)) == some true) (by decide)
  obtain ⟨registered, ends⟩ := Bool.and_eq_true_iff.mp here
  obtain ⟨opened, found, callback⟩ := of_decide_eq_true registered
  obtain ⟨t, stepped, ran⟩ := (Option.any_eq_true _ _).mp ends
  obtain ⟨later, follows, draining⟩ :=
    GuardedFrom.of_trace (fun core _ sec => 0 ∉ sec.fails core) (eq_of_beq ran)
  exact ⟨s, t, later, reached, stepped, follows, of_decide_eq_true draining,
    cancelled_silent reached opened found callback stepped follows⟩

/-- An APPEND that waits for its continuation is marked detached and stays queued, so the connection
    loss fails it after all. -/
theorem cancelled_append_told :
    ¬ ∀ (s t later : System) (tag : Tag) (p : OpId), imapContext.Reachable s →
    s.core.phase = .opened → ContextCore.lookup s.core.registry tag = some p →
    (s.core.cell p).callbackPath = true → imapContext.step s (.call (.cancel tag)) = some t →
    GuardedFrom (fun _ _ _ => True) t later → ∀ outcome, .delivered p outcome ∉ later.core.log := by
  intro claimed
  obtain ⟨s, reached, here⟩ := imapContext.reachable_of_trace
    (flushed (.append { mailbox := ascii "box", message := ascii "m" }))
    (fun s => decide (s.core.phase = .opened ∧ ContextCore.lookup s.core.registry (tagText 1) = some 0 ∧
      (s.core.cell 0).callbackPath = true) &&
      (imapContext.step s (.call (.cancel (tagText 1)))).any fun t =>
        (imapContext.run (fun _ _ => true) t (connectionEnds ++ [Action.resume 1 .go])).map
          (fun later =>
          later.core.log.contains (.delivered 0 (.value (some .unexpectedResponse)))) ==
            some true) (by decide)
  obtain ⟨registered, ends⟩ := Bool.and_eq_true_iff.mp here
  obtain ⟨opened, found, callback⟩ := of_decide_eq_true registered
  obtain ⟨t, stepped, ran⟩ := (Option.any_eq_true _ _).mp ends
  obtain ⟨later, ran, told⟩ := Option.map_eq_some_iff.mp (eq_of_beq ran)
  have follows : GuardedFrom (fun _ _ _ => True) t later :=
    Automaton.Machine.Follows.of_run (fun _ _ _ _ _ => True.intro) .here ran
  exact claimed s t later _ 0 reached opened found callback stepped follows _
    (List.contains_iff_mem.mp told)

end Bkmail
