import Bkmail.Context.Aside
import Bkmail.Context.Tracks

namespace Bkmail

/-- The segments of every command are filled, and none of them is flushed before its cell has a
    history. -/
def Furnished (core : ContextCore) : Prop :=
  ∀ op < core.made, ∀ p, (core.cell op).command.progress = some p →
    p.segments ≠ [] ∧ (∀ segment ∈ p.segments, segment ≠ []) ∧
    (history op core.log = [] → p.emitted = 0)

namespace Command

theorem progress_flushed {c : Command} {after : Progress}
    (shape : c.onSegmentFlushed.progress = some after) :
    ∃ p, c.progress = some p ∧ after = p.flushed := by
  cases known : c.progress with
  | none =>
    cases c with
    | idle => cases shape
    | line | login | append | authenticate => cases known
  | some p =>
    rw [onSegmentFlushed_progress known] at shape
    exact ⟨p, rfl, (Option.some.inj shape).symm⟩

theorem progress_continued {c : Command} {after : Progress} (awaits : c.awaitsContinuation = true)
    (shape : c.onContinuation.progress = some after) :
    ∃ p, c.progress = some p ∧ after = p.continued := by
  cases known : c.progress with
  | none =>
    cases c with
    | idle => cases shape
    | line | login | append | authenticate => cases known
  | some p =>
    rw [onContinuation_progress known awaits] at shape
    exact ⟨p, rfl, (Option.some.inj shape).symm⟩

theorem progress_afterTagged {c : Command} {p : Progress}
    (shape : c.afterTagged.progress = some p) : c.progress = some p := by
  cases c <;> exact shape

end Command

namespace Furnished

variable {core : ContextCore} {pending others : List Work} {sec : Section} {o : Outcome}

theorem preserved (runs : sec.Runs core o) (consumed : pending.Perm (sec.consumed ++ others))
    (grounded : Grounded core pending) (routed : Routed core pending) (stamped : Stamped core)
    (furnished : Furnished core) : Furnished o.core := by
  have custody := grounded.custody
  intro op made p shape
  rcases runs.newcomer made with old | ⟨tag, request, addr, callbackPath, rfl, allocated,
    rfl, cell, log⟩
  · have before := furnished op old
    cases grounded.cell_step consumed runs old with
    | same wire log | detach _ _ _ _ _ _ _ _ _ _ wire log =>
      rw [wire.command] at shape
      obtain ⟨some_segment, filled, fresh⟩ := before p shape
      exact ⟨some_segment, filled, fun none => fresh (log ▸ none)⟩
    | stage _ _ _ _ wire log =>
      rw [wire.command] at shape
      obtain ⟨some_segment, filled, -⟩ := before p shape
      exact ⟨some_segment, filled, fun none => by simp [log] at none⟩
    | flush _ _ _ _ wire log =>
      rw [wire.command] at shape
      obtain ⟨known, found, rfl⟩ := Command.progress_flushed shape
      obtain ⟨some_segment, filled, -⟩ := before known found
      exact ⟨some_segment, filled, fun none => by simp [log] at none⟩
    | «continue» _ _ _ q _ _ target found wire log =>
      obtain ⟨-, awaits, stays⟩ := routed.route q target
      rw [custody.deref_eq (stays.live custody), Option.some.injEq] at found
      subst found
      rw [wire.command] at shape
      obtain ⟨known, found, rfl⟩ := Command.progress_continued awaits shape
      obtain ⟨some_segment, filled, -⟩ := before known found
      exact ⟨some_segment, filled, fun none => by simp [log] at none⟩
    | done _ _ _ _ idle _ _ _ _ _ _ _ wire =>
      rw [wire.command] at shape
      cases shape
    | tagged r _ wire log =>
      rw [wire.command] at shape
      obtain ⟨some_segment, filled, fresh⟩ := before p (Command.progress_afterTagged shape)
      exact ⟨some_segment, filled, fun none => fresh (log ▸ none)⟩
  · rw [cell] at shape
    have initial := Request.render_initial (stamped.filled (List.mem_append_left _ allocated)) shape
    refine ⟨?_, initial.filled, fun _ => initial.emitted⟩
    have unlocked := initial.unlocked
    have within := initial.within
    rintro empty
    rw [empty, List.length_nil] at within
    omega

theorem of_run {guard : ContextCore → List Work → Section → Prop} {s : System}
    (run : GuardedRun guard s) :
    Furnished s.core :=
  run.invariant (fun core _ => Furnished core) (fun _ _ _ _ furnished => furnished)
    (fun _ made => absurd made (Nat.not_lt_zero _))
    fun _ _ _ _ earlier consumed furnished _ runs =>
      furnished.preserved runs consumed (.of_run earlier) (.of_run earlier) (.of_run earlier)

end Furnished

/-- A command that has sent everything: it is in no write any more, and queued as long as it is
    registered. -/
structure Spent (t : OpId) (core : ContextCore) (pending : List Work) : Prop where
  made : t < core.made
  logged : history t core.log ≠ []
  exhausted : ∃ p, (core.cell t).command.progress = some p ∧ p.segments.length ≤ p.emitted ∧
    p.segments.length ≤ p.unlocked
  unstaged : (core.cell t).segmentStaged = false
  enqueued : t ∈ enqueuedOps core.log
  unlifted : t ∉ liftedOf pending
  here : ∀ entry ∈ core.registry, entry.2 = t → t ∈ core.writeQueue

namespace Spent

variable {t : OpId} {core : ContextCore} {pending others : List Work} {sec : Section} {o : Outcome}

theorem permuted {after : List Work} (perm : pending.Perm after) (spent : Spent t core pending) :
    Spent t core after :=
  { spent with unlifted := fun lifted =>
    spent.unlifted ((perm.flatMap_right Work.lifted).symm.subset lifted) }

theorem awaits (spent : Spent t core pending) : (core.cell t).awaitsContinuation = false := by
  obtain ⟨p, shape, -, unlocked⟩ := spent.exhausted
  rw [Operation.awaitsContinuation, Command.awaitsContinuation_progress shape]
  simpa [Progress.awaits] using unlocked

theorem next (spent : Spent t core pending) : (core.cell t).command.nextSegment = [] := by
  obtain ⟨p, shape, emitted, -⟩ := spent.exhausted
  rw [Command.nextSegment_progress shape, Progress.next]
  split
  · simp [emitted]
  · rfl

theorem written (spent : Spent t core pending) : (core.cell t).isWritten = true := by
  have awaits := spent.awaits
  simp only [Operation.awaitsContinuation] at awaits
  simp [Operation.isWritten, spent.unstaged, awaits, spent.next]

theorem plain (spent : Spent t core pending) : (core.cell t).cancelWritten = none := by
  obtain ⟨p, shape, -, -⟩ := spent.exhausted
  rw [Operation.cancelWritten, Option.map_eq_none_iff]
  generalize (core.cell t).command = command at shape
  cases command with
  | idle => cases shape
  | line | login | append | authenticate => rfl

/-- A written command that is queued and is no IDLE. -/
theorem of_written {guard : ContextCore → List Work → Section → Prop} {s : System}
    (run : GuardedRun guard s)
    (queued : t ∈ s.core.writeQueue) (written : (s.core.cell t).isWritten = true)
    (plain : (s.core.cell t).cancelWritten = none) : Spent t s.core s.pending := by
  have grounded := Grounded.of_run run
  have custody := grounded.custody
  have made := grounded.queue_made queued
  simp only [Operation.isWritten, Bool.and_eq_true, Bool.not_eq_true', beq_iff_eq] at written
  obtain ⟨⟨unstaged, parked⟩, empty⟩ := written
  obtain ⟨p, shape⟩ : ∃ p, (s.core.cell t).command.progress = some p := by
    rw [Operation.cancelWritten, Option.map_eq_none_iff] at plain
    generalize (s.core.cell t).command = command at plain
    cases command with
    | idle => cases plain
    | line | login | append | authenticate => exact ⟨_, rfl⟩
  obtain ⟨some_segment, filled, fresh⟩ := Furnished.of_run run t made p shape
  have unlocked : p.segments.length ≤ p.unlocked := by
    rw [Command.awaitsContinuation_progress shape] at parked
    simpa [Progress.awaits] using parked
  have emitted : p.segments.length ≤ p.emitted := by
    by_contra short
    have bound : p.emitted < p.segments.length := by omega
    rw [Command.nextSegment_progress shape, Progress.next, if_pos (by omega),
      List.getElem?_eq_getElem bound] at empty
    exact filled _ (List.getElem_mem bound) empty
  refine ⟨made, fun none => ?_, ⟨p, shape, emitted, unlocked⟩, unstaged,
    grounded.enlisted.ordered.subset queued, fun lifted => ?_, fun _ _ _ => queued⟩
  · have early := fresh none
    have some_segment := List.length_pos_of_ne_nil some_segment
    omega
  · obtain ⟨work, pends, lifted⟩ := List.mem_flatMap.mp lifted
    refine custody.owned_not_queued pends ?_ queued
    cases work <;> simp_all [Work.lifted, Work.owns]

theorem unhit (spent : Spent t core pending) (custody : Custody core pending)
    (aimed : Aimed core pending)
    {batch : Batch} (token : batch ∈ batchesOf pending) : t ∉ core.hits batch.ops := by
  intro hit
  obtain ⟨queued, p, contains, same⟩ := ContextCore.mem_hits hit
  by_cases own : p = t
  · subst own
    have staged := aimed.staged batch token p contains queued
    rw [spent.unstaged] at staged
    cases staged
  · exact spent.logged (aimed.strangers batch token p contains t (custody.queue_live queued) same own)

/-- It stays so in every run. -/
theorem preserved (runs : sec.Runs core o) (consumed : pending.Perm (sec.consumed ++ others))
    (grounded : Grounded core pending) (routed : Routed core pending) (aimed : Aimed core pending)
    (separate : Separate core) (spent : Spent t core pending) :
    Spent t o.core (o.produced ++ others) := by
  have custody := grounded.custody
  have before := spent.permuted consumed
  have made := spent.made
  have routes := runs.routes consumed grounded
  have unhit {batch : Batch} (token : batch ∈ batchesOf sec.consumed) : t ∉ core.hits batch.ops :=
    spent.unhit custody aimed (Grounded.consumed_batch consumed token)
  have extracted (batch : Batch) (token : batch ∈ batchesOf sec.consumed) :
      t ∉ (core.unlatchWrite.extractAll batch.ops).2 := by
    have apart : core.unlatchWrite.Apart batch.ops :=
      grounded.batched.apart batch (Grounded.consumed_batch consumed token)
    rw [(ContextCore.extractAll_spec batch.ops core.unlatchWrite custody.nodup_queue apart).1]
    exact unhit token
  have unlifted : t ∉ liftedOf (o.produced ++ others) := by
    rw [liftedOf_append, List.mem_append]
    rintro (produced | other)
    · obtain ⟨work, new, lifted⟩ := List.mem_flatMap.mp produced
      cases work <;> try exact absurd lifted List.not_mem_nil
      · cases runs.spawns new rfl with
        | writeError batch => exact extracted batch (by simp [Section.consumed, Work.batch?]) lifted
      · cases runs.spawns new rfl with
        | writeFailed =>
            exact before.unlifted (by simpa [Section.consumed, Work.lifted] using .inl lifted)
    · exact before.unlifted (by simp [other])
  refine ⟨Nat.lt_of_lt_of_le made (runs.heap.1 ▸ Nat.le_add_right _ _), ?_, ?_, ?_, ?_, unlifted, ?_⟩
  · obtain ⟨events, grown⟩ := Lived.grows runs consumed grounded t
    rw [grown]
    exact fun none => spent.logged (List.append_eq_nil_iff.mp none).1
  · obtain ⟨p, shape, emitted, unlocked⟩ := spent.exhausted
    cases grounded.cell_step consumed runs made with
    | same wire | stage _ _ _ _ wire | detach _ _ _ _ _ _ _ _ _ _ wire =>
      exact ⟨p, wire.command ▸ shape, emitted, unlocked⟩
    | flush _ _ _ _ wire =>
      refine ⟨p.flushed, wire.command ▸ Command.onSegmentFlushed_progress shape, ?_, unlocked⟩
      simpa [Progress.flushed, Nat.not_lt.mpr emitted] using emitted
    | «continue» _ _ _ q _ _ target found =>
      obtain ⟨-, awaits, stays⟩ := routed.route q target
      rw [custody.deref_eq (stays.live custody), Option.some.injEq] at found
      rw [found, spent.awaits] at awaits
      cases awaits
    | done _ _ _ _ idle _ _ _ _ _ _ known =>
      rw [known] at shape
      cases shape
    | tagged r _ wire =>
      exact ⟨p, (wire.command.trans (Command.afterTagged_progress shape)) ▸ shape, emitted, unlocked⟩
  · cases grounded.cell_step consumed runs made with
    | same wire | «continue» _ _ _ _ _ _ _ _ wire | done _ _ _ _ _ _ _ _ _ _ _ _ wire
    | detach _ _ _ _ _ _ _ _ _ _ wire | tagged _ _ wire => exact wire.segmentStaged.trans spent.unstaged
    | stage _ _ _ reached =>
      refine absurd ?_ (ContextCore.reached_segment reached)
      simp [Operation.nextSegment, spent.next]
    | flush _ _ _ _ wire => exact wire.segmentStaged
  · rcases runs.enqueues with ⟨same, -⟩ | ⟨_, _, -, -, grown, -⟩
    · exact same ▸ spent.enqueued
    · exact grown ▸ List.mem_append_left _ spent.enqueued
  · rintro entry member rfl
    rcases routes.entries member with old | ⟨op, post, rfl, -, rfl, queued⟩
    · have queued := spent.here entry old rfl
      have itself := routed.stamped entry old
      have erased (tag : Tag) (p : OpId) (found : ContextCore.lookup core.registry tag = some p)
          (address : (core.cell p).addr = (core.cell entry.2).addr)
          (registry : o.core.registry = ContextCore.erase core.registry tag) : False := by
        have entry' := ContextCore.mem_of_lookup found
        have own : p = entry.2 := separate _ entry' entry.2 queued address
        have same := routed.stamped _ entry'
        simp only [own] at same
        exact (ContextCore.mem_erase.mp (registry ▸ member)).2 (itself.symm.trans same)
      rcases routes.stays consumed (.inl queued) with (stays | lifted) | departs
      · exact stays
      · exact absurd lifted unlifted
      · exfalso
        cases departs with
        | withdraw tag p found cell _ registry =>
          have address := List.find?_some cell
          exact erased tag p found (by simpa [ContextCore.sameAddress] using address) registry
        | reply tag p found address registry => exact erased tag p found address registry
        | purge registry => simp [registry] at member
        | close foreign => exact foreign entry member itself.symm
        | retire torn given registry =>
          rcases given with gone | given
          · simp [routed.vacated gone] at old
          · unfold Section.retiring at given
            split at given
            · next batch _ =>
              split at given
              · simp at given
              · exact unhit (by simp [Section.consumed, Work.batch?]) given
            · next batch _ =>
              split at given
              · simp at given
              · exact unhit (by simp [Section.consumed, Work.batch?]) given
            · split at given
              · exact before.unlifted (by simpa [Section.consumed, Work.lifted] using .inl given)
              · simp at given
            · simp at given
        | flush gone =>
          simp only [ContextCore.retires, routed.attached entry old, Bool.false_and] at gone
          cases gone
    · exact queued

theorem aside {guard : ContextCore → List Work → Section → Prop} {s : System} (run : GuardedRun guard s)
    (spent : Spent t s.core s.pending) : Aside t s.core := by
  have custody := (Grounded.of_run run).custody
  have routed := Routed.of_run run
  refine ⟨custody.distinct, fun op => custody.queue_live, routed.keys, routed.stamped, .of_run run,
    ?_, spent.here, ?_, spent.written, spent.plain⟩
  · exact fun opened entry member => (routed.held opened entry member).live custody
  · intro q target
    obtain ⟨-, awaits, stays⟩ := routed.route q target
    exact ⟨stays.live custody, awaits⟩

end Spent

end Bkmail
