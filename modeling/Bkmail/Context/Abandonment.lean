import Bkmail.Context.Silence
import Bkmail.Context.Retirement

namespace Bkmail

/-- The cells that a pending section completes on the value channel even if the shell is destroyed
    now: they are lifted out already, or the check of `abandoned_` lies behind. -/
def Work.answers (core : ContextCore) : Work → List OpId
  | .fail op _ | .onTagged op _ | .enqueueOperation op _ => [op]
  | .writeLost _ retired => retired
  | .writeFailed _ retired => if core.phase = .closed ∧ core.abandoned = false then retired else []
  | .writeFlushed batch => (core.hits batch.ops).filter fun op => (core.cell op).isStaged
  | _ => []

/-- What the handler or the receiver of a cell got on the value channel. -/
def values (op : OpId) (log : List Event) : List (Option ErrorCode) :=
  (outcomes log).filterMap fun (q, outcome) =>
    match outcome with
    | .value ec => if q = op then some ec else none
    | .stopped => none

theorem Section.outcomes_answer {s : ContextCore} {sec : Section} {op : OpId} {ec : Option ErrorCode}
    (told : (op, .value ec) ∈ sec.outcomes s) : ∃ w ∈ sec.consumed, op ∈ w.answers s := by
  unfold Section.outcomes at told
  split at told
  · split at told <;> simp_all [Section.consumed, Work.answers]
  · split at told
    · simp at told
    · split at told
      · split at told <;> simp_all
      · simp_all [Section.consumed, Work.answers]
  · split at told
    · simp at told
    · split at told <;> simp_all
  · simp at told

/-- A write is only flushed by the completion that found the shell alive. -/
theorem Section.Runs.flushes {s : ContextCore} {sec : Section} {o : Outcome} (runs : sec.Runs s o)
    {batch : Batch}
    (member : .writeFlushed batch ∈ o.produced) :
    sec = .work (.writing batch) .done ∧ s.abandoned = false := by
  have token : batch ∈ batchesOf o.produced := List.mem_filterMap.mpr ⟨_, member, rfl⟩
  rcases runs.batch_source token with used | ⟨rfl, -⟩
  · cases runs with
    | writeDone other =>
      simp only [ContextCore.onWriteDone, Outcome.produced, List.append_nil,
        List.mem_singleton] at member
      split at member
      · cases member
      · rename_i remains
        cases member
        exact ⟨rfl, by simpa using remains⟩
    | armWrite other =>
      unfold ContextCore.armWrite at member
      split at member
      · cases gone : s.abandoned <;> simp [Outcome.produced, ContextCore.retire, gone] at member
      · simp [Outcome.produced] at member
    | writeFlushed other =>
      unfold ContextCore.writeFlushed at member
      split at member <;> simp [Outcome.produced, ContextCore.retire] at member
    | writeQuiet other => simp [Outcome.produced, ContextCore.writeQuiet] at member
    | writeError other ec => simp [Outcome.produced, ContextCore.onWriteDone] at member
    | _ => simp [Section.consumed, Work.batch?] at used
  · cases runs with
    | kick =>
      simp only [ContextCore.kick] at member
      split at member
      · simp [Outcome.produced] at member
      · split at member <;> simp [Outcome.produced] at member

def Withers (s t : ContextCore) : Prop :=
  t.writeQueue.Sublist s.writeQueue ∧
    (∀ op ∈ s.writeQueue, (t.cell op).isStaged = (s.cell op).isStaged) ∧
    (t.phase = .closed → t.abandoned = false → s.phase = .closed ∧ s.abandoned = false)

theorem Work.answers_wither {core : ContextCore} {pending : List Work} {sec : Section} {o : Outcome}
    (runs : sec.Runs core o) (grounded : Grounded core pending)
    (withers : Withers core o.core) {w : Work}
    (pends : w ∈ pending) {op : OpId} (owed : op ∈ w.answers o.core) : op ∈ w.answers core := by
  obtain ⟨queue, staged, closed⟩ := withers
  cases w with
  | writeFailed ec retired =>
    simp only [answers] at owed ⊢
    split at owed
    · rename_i past
      rwa [if_pos (closed past.1 past.2)]
    · simp at owed
  | writeFlushed batch =>
    obtain ⟨hit, flying⟩ := List.mem_filter.mp owed
    obtain ⟨queued, p, member, same⟩ := ContextCore.mem_hits hit
    have before := queue.subset queued
    have token : batch ∈ batchesOf pending := List.mem_filterMap.mpr ⟨_, pends, rfl⟩
    rw [(runs.fixed (grounded.batched.made batch token p member)).addr,
      (runs.fixed (grounded.queue_made before)).addr] at same
    refine List.mem_filter.mpr ⟨grounded.custody.mem_hits before member same, ?_⟩
    rwa [staged op before] at flying
  | _ => exact owed

/-- Nothing that is pending will answer the cell any more, in a core that has been abandoned or
    closed. -/
structure Hushed (op : OpId) (core : ContextCore) (pending : List Work) : Prop where
  made : op < core.made
  past : core.abandoned = true ∨ core.phase = .closed
  settled : core.phase ≠ .closed → core.Settled
  spared : ∀ w ∈ pending, op ∉ w.answers core

namespace Hushed

variable {op : OpId} {core : ContextCore} {pending others : List Work} {sec : Section} {o : Outcome}

theorem permuted {after : List Work} (perm : pending.Perm after) (hushed : Hushed op core pending) :
    Hushed op core after :=
  { hushed with spared := fun w pends => hushed.spared w (perm.symm.subset pends) }

theorem running (hushed : Hushed op core pending) (latched : Latched core pending) :
    core.phase ≠ .opened := by
  rcases hushed.past with abandoned | closed
  · exact latched.abandoned abandoned
  · simp [closed]

theorem unclosed (latched : Latched core pending) {batch : Batch} (token : batch ∈ batchesOf pending) :
    core.phase ≠ .closed := fun closed => by
  rw [latched.no_batch (latched.closed closed).1] at token
  simp at token

theorem withers (hushed : Hushed op core pending) (grounded : Grounded core pending)
    (runs : sec.Runs core o) :
    Withers core o.core := by
  have running := hushed.running grounded.latched
  refine ⟨?_, ?_, ?_⟩
  · rcases runs.queue with lost | ⟨_, _, _, opened, _⟩
    · exact lost
    · exact absurd opened running
  · intro q queued
    obtain ⟨acted, acts, quiet⟩ := runs.acts
    exact (quiet.cells q).segmentStaged.trans
      (acts.keeps_staged (fun opened => absurd opened running) (grounded.queue_made queued))
  · intro _ remains
    have same : core.abandoned = false := by
      rcases runs.abandons with same | ⟨-, gone⟩
      · exact same.symm.trans remains
      · simp [gone] at remains
    exact ⟨hushed.past.resolve_left (by simp [same]), same⟩

/-- No teardown takes the cell to fail: what is queued is staged, and a write that ends finds the
    core abandoned. -/
theorem unfailed (hushed : Hushed op core pending) (grounded : Grounded core pending)
    (consumed : pending.Perm (sec.consumed ++ others)) : op ∉ sec.fails core := by
  have running := hushed.running grounded.latched
  have unstaged : core.phase ≠ .closed → (core.takeCellsLocked fun c => !c.isStaged).2 = [] :=
      fun remains => by
    simpa [ContextCore.takeCellsLocked, ContextCore.Settled] using hushed.settled remains
  intro fails
  unfold Section.fails at fails
  split at fails
  · simp [running] at fails
  · split at fails
    · simp at fails
    · rename_i remains
      simp [unstaged remains] at fails
  · split at fails
    · simp at fails
    · rename_i remains
      simp [unstaged remains] at fails
  · rename_i ec retired choice
    have spared := hushed.spared _ (Grounded.consumed_mem consumed List.mem_cons_self)
    split at fails
    · exact spared (by simpa [Work.answers] using fails)
    · rename_i remains
      exact spared (by simpa [Work.answers, unstaged remains] using fails)
  · rename_i batch choice
    have token : batch ∈ batchesOf pending :=
      Grounded.consumed_batch consumed (by simp [Section.consumed, Work.batch?])
    simp [hushed.past.resolve_right (unclosed grounded.latched token)] at fails
  · rename_i batch choice
    have token : batch ∈ batchesOf pending :=
      Grounded.consumed_batch consumed (by simp [Section.consumed, Work.batch?])
    rw [if_neg running,
      (ContextCore.extractAll_spec batch.ops core.unlatchWrite grounded.custody.nodup_queue
      (grounded.batched.apart batch token)).1] at fails
    refine hushed.spared _ (Grounded.consumed_mem consumed List.mem_cons_self)
      (List.mem_filter.mpr ⟨fails, ?_⟩)
    exact hushed.settled (unclosed grounded.latched token) op (ContextCore.mem_hits fails).1
  · exact hushed.spared _ (Grounded.consumed_mem consumed List.mem_cons_self)
      (by simpa [Work.answers, running] using fails)
  · simp at fails

theorem preserved (runs : sec.Runs core o) (consumed : pending.Perm (sec.consumed ++ others))
    (grounded : Grounded core pending) (routed : Routed core pending)
    (hushed : Hushed op core pending) :
    Hushed op o.core (o.produced ++ others) := by
  have latched := grounded.latched
  have running := hushed.running latched
  have made := hushed.made
  have withers := hushed.withers grounded runs
  have past : o.core.abandoned = true ∨ o.core.phase = .closed := by
    rcases hushed.past with abandoned | closed
    · rcases runs.abandons with same | ⟨-, gone⟩
      · exact .inl (same.trans abandoned)
      · exact .inl gone
    · exact .inr (runs.controls.stays_closed closed)
  refine ⟨Nat.lt_of_lt_of_le made (runs.heap.1 ▸ Nat.le_add_right _ _), past, ?_, ?_⟩
  · intro remains
    refine runs.settled running (fun q queued =>
      grounded.queue_made queued) (hushed.settled fun closed => ?_)
    exact remains (runs.controls.stays_closed closed)
  · intro w pends owed
    rcases List.mem_append.mp pends with produced | other
    · cases w with
      | fail q ec =>
        cases List.mem_singleton.mp owed
        cases runs.hands produced rfl with
        | fail sec q ec taken => exact hushed.unfailed grounded consumed taken
      | onTagged q r =>
        cases runs.hands produced rfl with
        | reply texts r p q found =>
          rcases hushed.past with abandoned | closed
          · simp [routed.vacated abandoned, ContextCore.lookup] at found
          · have reads := (latched.permuted consumed).read
            simp [(latched.closed closed).2, Section.consumed, Work.reads] at reads
      | enqueueOperation q post =>
        cases List.mem_singleton.mp owed
        cases runs.spawns produced rfl
        exact Nat.lt_irrefl _ made
      | writeLost ec retired =>
        cases runs.spawns produced rfl with
        | writeFailed ec retired remains =>
          refine hushed.spared _ (Grounded.consumed_mem consumed List.mem_cons_self) ?_
          have closed := hushed.past.resolve_left (by simp [remains])
          simpa [Work.answers, closed, remains] using owed
      | writeFailed ec retired =>
        simp only [Work.answers] at owed
        split at owed
        · rename_i closed
          cases runs.spawns produced rfl with
          | writeError batch ec =>
            have token : batch ∈ batchesOf pending :=
              Grounded.consumed_batch consumed (by simp [Section.consumed, Work.batch?])
            exact unclosed latched token (withers.2.2 closed.1 closed.2).1
        · simp at owed
      | writeFlushed batch =>
        obtain ⟨rfl, remains⟩ := runs.flushes produced
        have token : batch ∈ batchesOf pending :=
          Grounded.consumed_batch consumed (by simp [Section.consumed, Work.batch?])
        exact unclosed latched token (hushed.past.resolve_left (by simp [remains]))
      | _ => simp [Work.answers] at owed
    · have before := consumed.symm.subset (List.mem_append_right _ other)
      exact hushed.spared w before (w.answers_wither runs grounded withers before owed)

/-- What `abandon` leaves, once nothing that is pending would still answer the cell. -/
theorem start {s t : System} (reached : imapContext.Reachable s) (made : op < s.core.made)
    (spared : ∀ w ∈ s.pending, op ∉ w.answers s.core)
    (stepped : imapContext.step s (.call .abandon) = some t) :
    Hushed op t.core t.pending := by
  have grounded := Grounded.of_run (GuardedRun.of_reachable reached)
  obtain ⟨sec, o, others, selected, ran, same, consumed, produced⟩ :=
    System.step_section (show s.step (.call .abandon) = some t from stepped)
  cases selected
  have runs := Section.runs ran
  have ends : o.core.abandoned = true ∨ s.core.phase = .closed := by
    cases runs with
    | abandon =>
      by_cases closed : s.core.phase = .closed
      · exact .inr closed
      · left
        simp [ContextCore.abandon, closed]
  have past : o.core.abandoned = true ∨ o.core.phase = .closed :=
    ends.imp_right runs.controls.stays_closed
  have withers : Withers s.core o.core := by
    refine ⟨?_, ?_, ?_⟩
    · rcases runs.queue with lost | ⟨_, _, other, _⟩
      · exact lost
      · cases other
    · intro q queued
      obtain ⟨acted, acts, quiet⟩ := runs.acts
      exact (quiet.cells q).segmentStaged.trans
        (acts.keeps_staged (fun _ => ⟨by simp, by simp⟩) (grounded.queue_made queued))
    · intro _ remains
      have closed := ends.resolve_left (by simp [remains])
      cases runs with
      | abandon => exact ⟨closed, by simpa [ContextCore.abandon, closed] using remains⟩
  rw [same]
  refine Hushed.permuted produced.symm
    ⟨Nat.lt_of_lt_of_le made (runs.heap.1 ▸ Nat.le_add_right _ _), past, ?_, ?_⟩
  · intro remains
    cases runs with
    | abandon =>
      unfold ContextCore.abandon at remains ⊢
      split at remains
      · rename_i closed
        exact absurd closed remains
      · rename_i running
        simp [running, ContextCore.Settled, ContextCore.takeCellsLocked]
  · intro w pends owed
    rcases List.mem_append.mp pends with new | old
    · cases runs with
      | abandon =>
        unfold ContextCore.abandon at new
        split at new
        · simp [Outcome.produced] at new
        · rcases List.mem_pair.mp (by simpa [Outcome.produced] using new)
            with rfl | rfl <;> simp [Work.answers] at owed
    · have before := consumed.symm.subset (List.mem_append_right _ old)
      exact spared w before (w.answers_wither runs grounded withers before owed)

theorem values_same (runs : sec.Runs core o) (consumed : pending.Perm (sec.consumed ++ others))
    (hushed : Hushed op core pending) : values op o.core.log = values op core.log := by
  have none : (sec.outcomes core).filterMap (fun (q, outcome) =>
      match outcome with
      | .value ec => if q = op then some ec else none
      | .stopped => none) = [] := by
    refine List.filterMap_eq_nil_iff.mpr fun (q, outcome) told => ?_
    cases outcome with
    | stopped => rfl
    | value ec =>
      refine if_neg fun itself => ?_
      subst itself
      obtain ⟨w, runs, answers⟩ := Section.outcomes_answer told
      exact hushed.spared w (Grounded.consumed_mem consumed runs) answers
  rw [values, values, runs.outcomes, List.filterMap_append, none, List.append_nil]

end Hushed

/-- After `abandon` a handler or a receiver gets nothing more on the value channel, unless its cell
    was being completed as the mutex was taken, or its write had already been found alive. -/
theorem abandoned_silent {s t later : System} {op : OpId} (reached : imapContext.Reachable s)
    (made : op < s.core.made) (spared : ∀ w ∈ s.pending, op ∉ w.answers s.core)
    (stepped : imapContext.step s (.call .abandon) = some t) (leads : imapContext.Leads t later) :
    values op later.core.log = values op t.core.log := by
  have arrived := reached.next True.intro stepped
  have after := leads.invariant
    (fun later => Hushed op later.core later.pending ∧ values op later.core.log = values op t.core.log)
    ⟨.start reached made spared stepped, rfl⟩ ?_
  · exact after.2
  intro before after action earlier ⟨hushed, same⟩ steps
  have run := GuardedRun.of_reachable (earlier.reachable arrived)
  obtain ⟨sec, o, others, selected, ran, core, consumed, produced⟩ := System.step_section steps
  have runs := Section.runs ran
  rw [core]
  exact ⟨(hushed.preserved runs consumed (.of_run run) (.of_run run)).permuted produced.symm,
    (hushed.values_same runs consumed).trans same⟩

/-- A NOOP whose write completes after the shell is gone. -/
theorem abandoned_silent_noop : ∃ s t later, imapContext.Reachable s ∧
    imapContext.step s (.call .abandon) = some t ∧ imapContext.Leads t later ∧
    later.core.writeQueue = [] ∧ values 0 later.core.log = values 0 t.core.log := by
  obtain ⟨s, reached, here⟩ := imapContext.reachable_of_trace noopInFlight
    (fun s => decide (0 < s.core.made ∧ ∀ w ∈ s.pending, 0 ∉ w.answers s.core) &&
      (imapContext.step s (.call .abandon)).any fun t =>
        (imapContext.run (fun _ _ => true) t [.resume 6 .done, .resume 6 .go]).map
          (fun later => decide (later.core.writeQueue = [])) == some true) (by decide)
  obtain ⟨there, ends⟩ := Bool.and_eq_true_iff.mp here
  obtain ⟨made, spared⟩ := of_decide_eq_true there
  obtain ⟨t, stepped, ran⟩ := (Option.any_eq_true _ _).mp ends
  obtain ⟨later, ran, empty⟩ := Option.map_eq_some_iff.mp (eq_of_beq ran)
  have leads := Automaton.Machine.Leads.of_run .here ran
  exact ⟨s, t, later, reached, stepped, leads, of_decide_eq_true empty,
    abandoned_silent reached made spared stepped leads⟩

/-- The completion of a write loads `abandoned_` before it takes the mutex. A shell that is
    destroyed in between does not keep the staged command from failing on the value channel. -/
theorem abandoned_noop_told : ¬ ∀ (s t later : System) (op : OpId), imapContext.Reachable s →
    op < s.core.made → imapContext.step s (.call .abandon) = some t → imapContext.Leads t later →
      values op later.core.log = values op t.core.log := by
  intro claimed
  obtain ⟨s, reached, here⟩ := imapContext.reachable_of_trace (noopInFlight ++ [Action.resume 6 .done])
    (fun s => decide (0 < s.core.made) && (imapContext.step s (.call .abandon)).any fun t =>
      (imapContext.run (fun _ _ => true) t [.resume 6 .go, .resume 6 .go]).map (fun later =>
        decide (values 0 t.core.log = [] ∧ values 0 later.core.log = [some .operationCanceled])) ==
          some true)
    (by decide)
  obtain ⟨made, ends⟩ := Bool.and_eq_true_iff.mp here
  obtain ⟨t, stepped, ran⟩ := (Option.any_eq_true _ _).mp ends
  obtain ⟨later, ran, told⟩ := Option.map_eq_some_iff.mp (eq_of_beq ran)
  obtain ⟨silent, answered⟩ := of_decide_eq_true told
  have leads := Automaton.Machine.Leads.of_run .here ran
  have same := claimed s t later 0 reached (of_decide_eq_true made) stepped leads
  simp [silent, answered] at same

end Bkmail
