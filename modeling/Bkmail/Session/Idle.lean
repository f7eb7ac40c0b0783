import Bkmail.Session.Completion

namespace Bkmail

def StartStep.pastTag : StartStep → Bool
  | .flush | .armTimer | .registerStop | .engageStop | .returned => true
  | .entry | .listen | .submit | .submitting _ | .storeTag => false

namespace StateOperation

/-- The operation has completed through `wake` or a stop, or the stopped completion is posted. -/
def Interrupted (op : StateOperation) : Prop :=
  .woken ∈ op.exits ∨ .stopped ∈ op.exits ∨ op.stopPosted = true

/-- What `cancel` needs to be told the right tag: nothing interrupts before the tag is stored. -/
structure Tagged (op : StateOperation) : Prop where
  fresh : op.step = .entry → op.command = none
  unarmed : op.step.pastTag = false → op.timer = false ∧ op.stopCallback = false ∧ ¬op.Interrupted
  stored : op.step.pastTag = true → ∀ tag cell, op.command = some (tag, cell) → op.tag = tag
  told : op.Interrupted → ∀ tag cell, op.command = some (tag, cell) → tag ∈ op.cancelled

theorem Tagged.of_unsubmitted {op : StateOperation} (none : op.command = none)
    (unarmed : op.step.pastTag = false →
    op.timer = false ∧ op.stopCallback = false ∧ ¬op.Interrupted) : op.Tagged := by
  refine ⟨fun _ => none, unarmed, fun _ tag cell command => ?_, fun _ tag cell command => ?_⟩
  · cases none.symm.trans command
  · cases none.symm.trans command

theorem Tagged.onResult {op : StateOperation} (tagged : op.Tagged) (ec : Option ErrorCode) :
    (op.onResult ec).Tagged := by
  rw [StateOperation.onResult]
  split
  · exact tagged
  · have same : ({ op with completed := true }.cleanup.exit (.result ec)).Interrupted ↔
      op.Interrupted := by
      simp [Interrupted, cleanup, exit]
    refine ⟨tagged.fresh, fun early => ⟨rfl, rfl, ?_⟩, tagged.stored, ?_⟩
    · rw [same]
      exact (tagged.unarmed early).2.2
    · rw [same]
      exact tagged.told

end StateOperation

namespace Session

open StateOperation

theorem wake_tagged {s : Session} (tagged : s.op.Tagged) (stored : s.op.step.pastTag = true) :
    s.wake.op.Tagged := by
  rw [wake]
  split
  · exact tagged
  · refine ⟨tagged.fresh, fun early => absurd (early.symm.trans stored) (by decide), tagged.stored, ?_⟩
    intro _ tag cell command
    simp [cancel, call, cleanup, exit, tagged.stored stored tag cell command]

theorem stopForwarder_tagged {s : Session} (tagged : s.op.Tagged) (stored : s.op.step.pastTag = true) :
    s.stopForwarder.op.Tagged := by
  rw [stopForwarder]
  split
  · exact tagged
  · refine ⟨tagged.fresh, fun early => absurd (early.symm.trans stored) (by decide), tagged.stored, ?_⟩
    intro _ tag cell command
    simp [cancel, call, cleanup, tagged.stored stored tag cell command]

/-- Whether an action runs the listener of the operation with a push that ends the IDLE. -/
def wokenBy (s : Session) : SessionAction → Bool
  | .context action => (s.system.section? action).any fun sec => sec.pushes.any fun event =>
      s.op.listening && event.wakes
  | .start _ | .requestStop | .heartbeat | .deliverStopped => false

theorem context_tagged {s t : Session} {action : Action} (stepped : s.context action = some t)
    (settled : s.op.step.pastTag = false → s.wokenBy (.context action) = false)
    (tagged : s.op.Tagged) : t.op.Tagged := by
  have kept : t.op.Tagged ∧ t.op.step = s.op.step ∧ t.op.listening = s.op.listening := by
    refine context_keeps (fun op => op.Tagged ∧ op.step = s.op.step ∧ op.listening = s.op.listening)
      ?_ ?_ stepped ⟨tagged, rfl, rfl⟩
    · rintro sec selected event member u ⟨tagged, step, listening⟩
      rw [onUnsolicited]
      split
      · next told =>
        have stored : u.op.step.pastTag = true := by
          rw [step]
          by_contra early
          have silent := settled (Bool.not_eq_true _ ▸ early)
          rw [wokenBy, selected, Option.any_some, List.any_eq_false] at silent
          exact silent event member (listening ▸ told)
        refine ⟨wake_tagged tagged stored, ?_⟩
        rw [wake]
        split <;> exact ⟨step, listening⟩
      · exact ⟨tagged, step, listening⟩
    · rintro u ⟨cell, ec | _⟩ ⟨tagged, step, listening⟩
      · rw [onDelivery]
        split
        · refine ⟨tagged.onResult ec, ?_⟩
          rw [StateOperation.onResult]
          split <;> exact ⟨step, listening⟩
        · exact ⟨tagged, step, listening⟩
      · exact ⟨tagged, step, listening⟩
  exact kept.1

theorem start_tagged {s t : Session} {addr : Nat} (stepped : s.start addr = some t)
    (tagged : s.op.Tagged) :
    t.op.Tagged := by
  rw [start] at stepped
  split at stepped
  · next entry =>
    obtain ⟨timer, stopCallback, quiet⟩ := tagged.unarmed (by rw [entry]; rfl)
    have none := tagged.fresh entry
    cases stepped
    split
    · refine .of_unsubmitted none fun early => ?_
      cases early
    · split
      · refine .of_unsubmitted none fun early => ?_
        cases early
      · exact .of_unsubmitted none fun _ => ⟨timer, stopCallback, quiet⟩
  · next listen =>
    cases stepped
    refine ⟨?_, fun _ => tagged.unarmed (by rw [listen]; rfl), ?_,
      tagged.told⟩ <;> intro early <;> cases early
  · next submitted =>
    obtain ⟨timer, stopCallback, quiet⟩ := tagged.unarmed (by rw [submitted]; rfl)
    obtain ⟨system, -, rfl⟩ := Option.map_eq_some_iff.mp stepped
    refine ⟨?_, fun _ => ⟨timer, stopCallback, quiet⟩, ?_, fun left =>
      absurd left quiet⟩ <;> intro early <;> cases early
  · next thread submitting =>
    split at stepped
    · cases stepped
      refine ⟨?_, fun _ => tagged.unarmed (by rw [submitting]; rfl), ?_,
        tagged.told⟩ <;> intro early <;> cases early
    · cases stepped
  · next storeTag =>
    cases stepped
    refine ⟨?_, ?_, ?_, tagged.told⟩
    · intro early
      cases early
    · intro early
      cases early
    · intro _ tag cell command
      have command : s.op.command = some (tag, cell) := command
      simp [goTo, submittedTag, command]
  · next flush =>
    cases stepped
    refine ⟨fun entry => ?_, fun early => ?_, fun _ => tagged.stored (by rw [flush]; rfl), tagged.told⟩
    · rw [goTo] at entry
      split at entry <;> cases entry
    · rw [goTo] at early
      split at early <;> cases early
  · next armTimer =>
    cases stepped
    refine ⟨?_, ?_, fun _ => tagged.stored (by rw [armTimer]; rfl),
      tagged.told⟩ <;> intro early <;> cases early
  · next registerStop =>
    cases stepped
    have registered :
      ({ s with op := { s.op.touch with stopCallback := true } }.goTo .engageStop).op.Tagged :=
      ⟨(by simp [goTo]), (by simp [goTo, StartStep.pastTag]), fun _ =>
        tagged.stored (by rw [registerStop]; rfl), tagged.told⟩
    split
    · exact stopForwarder_tagged registered rfl
    · exact registered
  · next engageStop =>
    cases stepped
    refine ⟨?_, ?_, fun _ => tagged.stored (by rw [engageStop]; rfl),
      tagged.told⟩ <;> intro early <;> cases early
  · cases stepped

theorem step_tagged {s t : Session} {action : SessionAction} (stepped : s.step action = some t)
    (settled : s.op.step.pastTag = false → s.wokenBy action = false) (tagged : s.op.Tagged) :
    t.op.Tagged := by
  have armed (timer : s.op.timer = true ∨ s.op.stopCallback = true) : s.op.step.pastTag = true := by
    by_contra early
    obtain ⟨timer', stopCallback, -⟩ := tagged.unarmed (Bool.not_eq_true _ ▸ early)
    simp [timer', stopCallback] at timer
  cases action with
  | context action => exact context_tagged stepped settled tagged
  | start addr => exact start_tagged stepped tagged
  | requestStop =>
    rw [step] at stepped
    have requested : { s.op with stopRequested := true }.Tagged :=
      ⟨tagged.fresh, tagged.unarmed, tagged.stored, tagged.told⟩
    split at stepped
    · cases stepped
      exact tagged
    · cases stepped
      split
      · next registered => exact stopForwarder_tagged requested (armed (.inr registered))
      · exact requested
  | heartbeat =>
    rw [step] at stepped
    split at stepped
    · next timer =>
      cases stepped
      exact wake_tagged tagged (armed (.inl timer))
    · cases stepped
  | deliverStopped =>
    rw [step] at stepped
    split at stepped
    · next posted =>
      cases stepped
      refine ⟨tagged.fresh, fun early => ?_, tagged.stored, fun _ => tagged.told (.inr (.inr posted))⟩
      exact absurd (.inr (.inr posted)) (tagged.unarmed early).2.2
    · cases stepped

/-- An IDLE that completed through `wake` or a stop has not been staged, or `cancel` was called with
    its tag. -/
def InSync (s : Session) : Prop :=
  .woken ∈ s.op.exits ∨ .stopped ∈ s.op.exits → ∀ tag cell, s.op.command = some (tag, cell) →
    (∀ batch segment, .staged batch cell segment ∉ s.system.core.log) ∨ tag ∈ s.op.cancelled

end Session

/-- As long as no push wakes the operation before its tag is stored, the server is never left
    idling. -/
theorem idle_in_sync {capabilities : List Bytes} {s : Session}
    (run : (sessionOperation .idleOp capabilities).Guarded
      (fun s action => s.op.step.pastTag = false → s.wokenBy action = false) s) : s.InSync := by
  have tagged : s.op.Tagged := by
    refine run.invariant (fun s : Session => s.op.Tagged) ?_ ?_
    · exact ⟨fun _ => rfl, fun _ =>
        ⟨rfl, rfl, by simp [StateOperation.Interrupted, sessionOperation]⟩, nofun, nofun⟩
    · exact fun before after action _ tagged settled stepped =>
        Session.step_tagged stepped settled tagged
  intro left tag cell command
  exact .inr (tagged.told (left.imp_right .inl) tag cell command)

/-- An EXISTS that comes once the IDLE has been staged: DONE is asked for. -/
theorem idle_in_sync_woken :
    ∃ s : Session, s.InSync ∧ s.op.exits = [.woken] ∧ s.op.cancelled = [ascii "a0001"] ∧
    .staged 1 0 (ascii "a0001 IDLE\r\n") ∈ s.system.core.log := by
  obtain ⟨s, run, woken⟩ := (sessionOperation .idleOp [ascii "IDLE"]).guarded_of_trace
    (fun s action => decide (s.op.step.pastTag = false → s.wokenBy action = false))
    [.context (.resume 0 .go), .start 0, .start 0, .start 7, .context (.resume 3 .go), .start 0,
    .start 0, .start 0, .start 0, .start 0, .start 0, .context (.resume 5 .done),
    .context (.resume 5 .go), .context (.resume 5 .go),
      .context (.resume 1 (.data [ascii "* 1 EXISTS"])), .context (.resume 1 .go)]
    (fun s => decide (s.op.exits = [.woken] ∧ s.op.cancelled = [ascii "a0001"] ∧
      .staged 1 0 (ascii "a0001 IDLE\r\n") ∈ s.system.core.log))
    (fun _ _ allowed => of_decide_eq_true allowed) (by decide +kernel)
  exact ⟨s, idle_in_sync run, of_decide_eq_true woken⟩

/-- An EXISTS between the listener and the tag: `cancel` is called with the empty tag, and `start`
    goes on to submit and flush an IDLE that nobody ends. -/
theorem idle_out_of_sync : ∃ s, (sessionOperation .idleOp [ascii "IDLE"]).Reachable s ∧ ¬s.InSync ∧
    s.op.exits = [.woken] ∧ s.op.cancelled = [[]] ∧ .staged 1 0 (ascii "a0001 IDLE\r\n") ∈
    s.system.core.log := by
  obtain ⟨s, run, left⟩ := (sessionOperation .idleOp [ascii "IDLE"]).reachable_of_trace
    [.context (.resume 0 .go), .start 0, .start 0, .context (.resume 1 (.data [ascii "* 1 EXISTS"])),
      .context (.resume 1 .go), .start 7, .context (.resume 4 .go), .start 0, .start 0, .start 0,
      .context (.resume 6 .done), .context (.resume 6 .go), .context (.resume 6 .go)]
    (fun s => decide (s.op.command = some (ascii "a0001", 0) ∧ s.op.exits = [.woken] ∧
    s.op.cancelled = [[]] ∧ .staged 1 0 (ascii "a0001 IDLE\r\n") ∈ s.system.core.log))
    (by decide +kernel)
  obtain ⟨command, woken, cancelled, staged⟩ := of_decide_eq_true left
  refine ⟨s, run, fun sync => ?_, woken, cancelled, staged⟩
  rcases sync (.inl (by simp [woken])) _ _ command with unstaged | told
  · exact unstaged _ _ staged
  · rw [cancelled] at told
    exact absurd told (by decide)

end Bkmail
