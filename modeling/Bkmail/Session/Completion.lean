import Bkmail.Session.Operation

namespace Bkmail

namespace StateOperation

/-- Nothing can reach the operation: no command, no listener, no timer and no stop callback. -/
structure Detached (op : StateOperation) : Prop where
  command : op.command = none
  listening : op.listening = false
  timer : op.timer = false
  stopCallback : op.stopCallback = false

/-- Where an operation stands with its receiver: it still runs, `start` has refused it, or one of
    its completion paths has claimed it and has completed the receiver or posted the completion. -/
inductive Standing (op : StateOperation) : Prop where
  | running : op.completed = false → op.exits = [] → op.stopPosted = false →
      (op.step = .entry → op.Detached) → Standing op
  | refused : op.Detached → op.step = .returned → op.exits.length = 1 →
      op.stopPosted = false → Standing op
  | claimed : op.completed = true → op.step ≠ .entry →
      op.exits.length + op.stopPosted.toNat = 1 → Standing op

theorem Standing.once {op : StateOperation} (stands : op.Standing) : op.exits.length ≤ 1 := by
  cases stands with
  | running _ none _ _ => simp [none]
  | refused _ _ one _ => exact one.le
  | claimed _ _ one => omega

theorem Standing.claim {op next : StateOperation} (stands : op.Standing) (attached : ¬op.Detached)
    (lost : op.completed = true → next = op)
    (won : op.completed = false → op.exits = [] → op.stopPosted = false →
      next.completed = true ∧ next.step = op.step ∧ next.exits.length + next.stopPosted.toNat = 1) :
      next.Standing := by
  cases stands with
  | running free none quiet fresh =>
    obtain ⟨claimed, step, one⟩ := won free none quiet
    exact .claimed claimed (fun entry => attached (fresh (step ▸ entry))) one
  | refused detached => exact absurd detached attached
  | claimed taken inside one =>
    rw [lost taken]
    exact .claimed taken inside one

theorem Standing.onResult {op : StateOperation} (stands : op.Standing) {cell : OpId}
    (handles : op.handles cell = true)
    (ec : Option ErrorCode) : (op.onResult ec).Standing := by
  refine stands.claim (fun detached => ?_) ?_ ?_
  · rw [StateOperation.handles, detached.command] at handles
    cases handles
  · intro taken
    rw [StateOperation.onResult, if_pos taken]
  · intro free none quiet
    rw [StateOperation.onResult, if_neg (by simp [free])]
    exact ⟨rfl, rfl, by simp [exit, cleanup, none, quiet]⟩

theorem Standing.moves {op next : StateOperation} (stands : op.Standing)
    (inside : op.step ≠ .returned) (left : next.step ≠ .entry)
    (completed : next.completed = op.completed)
    (exits : next.exits = op.exits) (posted : next.stopPosted = op.stopPosted) : next.Standing := by
  cases stands with
  | running free none quiet fresh =>
    exact .running (completed.trans free) (exits.trans none) (posted.trans quiet) fun entry =>
      absurd entry left
  | refused _ returned => exact absurd returned inside
  | claimed taken _ one => exact .claimed (completed.trans taken) left (by rw [exits, posted, one])

theorem Standing.stopRequested {op : StateOperation} (stands : op.Standing) :
    { op with stopRequested := true }.Standing := by
  cases stands with
  | running free none quiet fresh =>
    refine .running free none quiet fun entry => ?_
    obtain ⟨command, listening, timer, stopCallback⟩ := fresh entry
    exact ⟨command, listening, timer, stopCallback⟩
  | refused detached returned one quiet =>
    obtain ⟨command, listening, timer, stopCallback⟩ := detached
    exact .refused ⟨command, listening, timer, stopCallback⟩ returned one quiet
  | claimed taken inside one => exact .claimed taken inside one

end StateOperation

namespace Session

open StateOperation

theorem wake_stands {s : Session} (stands : s.op.Standing) (attached : ¬s.op.Detached) :
    s.wake.op.Standing := by
  refine stands.claim attached ?_ ?_
  · intro taken
    rw [wake, if_pos taken]
  · intro free none quiet
    rw [wake, if_neg (by simp [free])]
    exact ⟨rfl, rfl, by simp [cancel, call, exit, cleanup, none, quiet]⟩

theorem stopForwarder_stands {s : Session} (stands : s.op.Standing) (attached : ¬s.op.Detached) :
    s.stopForwarder.op.Standing := by
  refine stands.claim attached ?_ ?_
  · intro taken
    rw [stopForwarder, if_pos taken]
  · intro free none quiet
    rw [stopForwarder, if_neg (by simp [free])]
    exact ⟨rfl, rfl, by simp [cancel, call, cleanup, none]⟩

theorem onUnsolicited_stands {s : Session} (stands : s.op.Standing) (event : UnsolicitedEvent) :
    (s.onUnsolicited event).op.Standing := by
  rw [onUnsolicited]
  split
  · next told =>
    have listens : s.op.listening = true := (Bool.and_eq_true_iff.mp told).1
    exact wake_stands stands fun detached => by simp [detached.listening] at listens
  · exact stands

theorem onDelivery_stands {s : Session} (stands : s.op.Standing) (delivery : OpId × Delivery) :
    (s.onDelivery delivery).op.Standing := by
  obtain ⟨cell, ec | _⟩ := delivery
  · rw [onDelivery]
    split
    · next handles => exact stands.onResult handles ec
    · exact stands
  · exact stands

theorem context_keeps (kept : StateOperation → Prop) {s t : Session} {action : Action}
    (told : ∀ sec, s.system.section? action = some sec →
    ∀ event ∈ sec.pushes, ∀ u : Session, kept u.op →
      kept (u.onUnsolicited event).op)
    (delivered : ∀ (u : Session) delivery, kept u.op → kept (u.onDelivery delivery).op)
    (stepped : s.context action = some t) (before : kept s.op) : kept t.op := by
  have folded {ι : Type} (react : Session → ι → Session) {items : List ι}
      (step : ∀ item ∈ items, ∀ u : Session, kept u.op → kept (react u item).op) {u : Session}
        (before : kept u.op) :
      kept (items.foldl react u).op := by
    induction items generalizing u with
    | nil => exact before
    | cons item items ih =>
      exact ih (fun item member =>
        step item (List.mem_cons_of_mem _ member)) (step item List.mem_cons_self u before)
  rw [context] at stepped
  split at stepped
  · next sec system selected _ =>
    cases stepped
    exact folded _ (fun delivery _ u => delivered u delivery) (folded _ (told sec selected) before)
  · cases stepped

theorem context_stands {s t : Session} {action : Action} (stepped : s.context action = some t)
    (stands : s.op.Standing) :
    t.op.Standing :=
  context_keeps (·.Standing) (fun _ _ event _ _ stands => onUnsolicited_stands stands event)
    (fun _ delivery stands => onDelivery_stands stands delivery) stepped stands

theorem start_stands {s t : Session} {addr : Nat} (stepped : s.start addr = some t)
    (stands : s.op.Standing) :
    t.op.Standing := by
  rw [start] at stepped
  split at stepped
  · next entry =>
    cases stands with
    | running free none quiet fresh =>
      obtain ⟨command, listening, timer, stopCallback⟩ := fresh entry
      cases stepped
      split
      · exact .refused ⟨command, listening, timer, stopCallback⟩ rfl (by simp [goTo, exit, none]) quiet
      · split
        · exact .refused ⟨command, listening, timer,
            stopCallback⟩ rfl (by simp [goTo, exit, none]) quiet
        · refine .running free none quiet fun entry => ?_
          rw [goTo] at entry
          split at entry <;> cases entry
    | refused _ returned => cases entry.symm.trans returned
    | claimed _ inside => exact absurd entry inside
  · next listen =>
    cases stepped
    exact stands.moves (by simp [listen]) (by simp [goTo]) rfl rfl rfl
  · next submitted =>
    obtain ⟨system, -, rfl⟩ := Option.map_eq_some_iff.mp stepped
    exact stands.moves (by simp [submitted]) (by simp) rfl rfl rfl
  · next thread submitting =>
    split at stepped
    · cases stepped
      exact stands.moves (by simp [submitting]) (by simp [goTo]) rfl rfl rfl
    · cases stepped
  · next storeTag =>
    cases stepped
    exact stands.moves (by simp [storeTag]) (by simp [goTo]) rfl rfl rfl
  · next flush =>
    cases stepped
    refine stands.moves (by simp [flush]) ?_ rfl rfl rfl
    rw [goTo]
    split <;> exact fun entry => by cases entry
  · next armTimer =>
    cases stepped
    exact stands.moves (by simp [armTimer]) (by simp [goTo]) rfl rfl rfl
  · next registerStop =>
    cases stepped
    have registered :
      ({ s with op := { s.op.touch with stopCallback := true } }.goTo .engageStop).op.Standing :=
      stands.moves (by simp [registerStop]) (by simp [goTo]) rfl rfl rfl
    split
    · exact stopForwarder_stands registered fun detached => by cases detached.stopCallback
    · exact registered
  · next engageStop =>
    cases stepped
    exact stands.moves (by simp [engageStop]) (by simp [goTo]) rfl rfl rfl
  · cases stepped

theorem step_stands {s t : Session} {action : SessionAction} (stepped : s.step action = some t)
    (stands : s.op.Standing) : t.op.Standing := by
  cases action with
  | context action => exact context_stands stepped stands
  | start addr => exact start_stands stepped stands
  | requestStop =>
    rw [step] at stepped
    split at stepped
    · cases stepped
      exact stands
    · cases stepped
      split
      · next registered =>
        have registered : s.op.stopCallback = true := registered
        exact stopForwarder_stands stands.stopRequested fun detached => by
          cases registered.symm.trans detached.stopCallback
      · exact stands.stopRequested
  | heartbeat =>
    rw [step] at stepped
    split at stepped
    · next armed =>
      cases stepped
      exact wake_stands stands fun detached => by simp [detached.timer] at armed
    · cases stepped
  | deliverStopped =>
    rw [step] at stepped
    split at stepped
    · next posted =>
      cases stepped
      cases stands with
      | running _ _ quiet _ => cases posted.symm.trans quiet
      | refused _ _ _ quiet => cases posted.symm.trans quiet
      | claimed taken inside one =>
        refine .claimed taken inside ?_
        rw [posted] at one
        simpa [exit] using one
    · cases stepped

def completes (s : Session) : SessionAction → Bool
  | .context action =>
    !s.op.completed && (s.system.section? action).any fun sec =>
      (sec.pushes.any fun event => s.op.listening && event.wakes) ||
        (sec.outcomes s.system.core).any fun delivery => s.op.handles delivery.1
  | .start _ | .requestStop => false
  | .heartbeat => s.op.timer && !s.op.completed
  | .deliverStopped => s.op.stopPosted

theorem foldl_same {ι : Type} {react : Session → ι → Session} {items : List ι} {op : StateOperation}
    (ignored : ∀ item ∈ items, ∀ s : Session, s.op = op → (react s item).op = op) {s : Session}
    (same : s.op = op) :
    (items.foldl react s).op = op := by
  induction items generalizing s with
  | nil => exact same
  | cons item items ih =>
    exact ih (fun item member => ignored item (List.mem_cons_of_mem _ member))
      (ignored item List.mem_cons_self s same)

/-- A section of the context that does not complete the receiver leaves the operation alone. -/
theorem context_same {s t : Session} {action : Action} (stepped : s.context action = some t)
    (others : s.completes (.context action) = false) : t.op = s.op := by
  rw [context] at stepped
  split at stepped
  · next sec system selected _ =>
    cases stepped
    have apart : s.op.completed = false →
      (∀ event ∈ sec.pushes, (s.op.listening && event.wakes) = false) ∧
        ∀ delivery ∈ sec.outcomes s.system.core, s.op.handles delivery.1 = false := by
      intro free
      simpa [completes, selected, free, -Prod.forall, imp_iff_not_or] using others
    refine foldl_same ?_ (foldl_same ?_ rfl)
    · rintro ⟨cell, ec | _⟩ member u same
      · rw [onDelivery]
        split
        · next handles =>
          rw [same] at handles
          have taken : s.op.completed = true := by
            by_contra free
            cases handles.symm.trans ((apart (Bool.not_eq_true _ ▸ free)).2 _ member)
          rw [same, StateOperation.onResult, if_pos taken]
        · exact same
      · exact same
    · intro event member u same
      rw [onUnsolicited]
      split
      · next told =>
        rw [same] at told
        have taken : s.op.completed = true := by
          by_contra free
          cases told.symm.trans ((apart (Bool.not_eq_true _ ▸ free)).1 _ member)
        rw [wake, same, if_pos taken, same]
      · exact same
  · cases stepped

theorem context_step {s t : Session} {action : Action} (stepped : s.context action = some t) :
    t.op.step = s.op.step ∧ t.op.touched = s.op.touched := by
  refine context_keeps (fun op => op.step = s.op.step ∧
    op.touched = s.op.touched) ?_ ?_ stepped ⟨rfl, rfl⟩
  · intro _ _ event _ u kept
    rw [onUnsolicited]
    split
    · rw [wake]
      split <;> exact kept
    · exact kept
  · rintro u ⟨cell, ec | _⟩ kept
    · rw [onDelivery]
      split
      · rw [StateOperation.onResult]
        split <;> exact kept
      · exact kept
    · exact kept

/-- `start` has used nothing behind the completion, and as long as it runs there was none. -/
def Untouched (s : Session) : Prop := s.op.touched = false ∧ (s.op.step = .returned ∨ s.op.exits = [])

theorem Untouched.touch {s : Session} (before : s.Untouched) (running : s.op.step ≠ .returned) :
    s.op.touch.touched = false ∧ s.op.exits = [] := by
  have none := before.2.resolve_left running
  simp [StateOperation.touch, before.1, none]

theorem stopForwarder_untouched {s : Session} (before : s.Untouched) : s.stopForwarder.Untouched := by
  rw [stopForwarder]
  split <;> exact before

theorem start_untouched {s t : Session} {addr : Nat} (stepped : s.start addr = some t)
    (before : s.Untouched) :
    t.Untouched := by
  rw [start] at stepped
  split at stepped
  · next entry =>
    have none := before.2.resolve_left (by simp [entry])
    cases stepped
    split
    · exact ⟨before.1, .inl rfl⟩
    · split
      · exact ⟨before.1, .inl rfl⟩
      · exact ⟨before.1, .inr none⟩
  · next listen =>
    obtain ⟨clean, none⟩ := before.touch (by simp [listen])
    cases stepped
    exact ⟨clean, .inr none⟩
  · next submitted =>
    obtain ⟨clean, none⟩ := before.touch (by simp [submitted])
    obtain ⟨system, -, rfl⟩ := Option.map_eq_some_iff.mp stepped
    exact ⟨clean, .inr none⟩
  · next thread submitting =>
    split at stepped
    · cases stepped
      exact ⟨before.1, .inr (before.2.resolve_left (by simp [submitting]))⟩
    · cases stepped
  · next storeTag =>
    obtain ⟨clean, none⟩ := before.touch (by simp [storeTag])
    cases stepped
    exact ⟨clean, .inr none⟩
  · next flush =>
    obtain ⟨clean, none⟩ := before.touch (by simp [flush])
    cases stepped
    exact ⟨clean, .inr none⟩
  · next armTimer =>
    obtain ⟨clean, none⟩ := before.touch (by simp [armTimer])
    cases stepped
    exact ⟨clean, .inr none⟩
  · next registerStop =>
    obtain ⟨clean, none⟩ := before.touch (by simp [registerStop])
    cases stepped
    have registered :
      ({ s with op := { s.op.touch with stopCallback := true } }.goTo .engageStop).Untouched :=
      ⟨clean, .inr none⟩
    split
    · exact stopForwarder_untouched registered
    · exact registered
  · next engageStop =>
    obtain ⟨clean, none⟩ := before.touch (by simp [engageStop])
    cases stepped
    exact ⟨clean, .inr none⟩
  · cases stepped

theorem step_untouched {s t : Session} {action : SessionAction} (stepped : s.step action = some t)
    (undisturbed : s.op.step = .returned ∨ s.completes action = false) (before : s.Untouched) :
    t.Untouched := by
  obtain ⟨clean, inside⟩ := before
  cases action with
  | context action =>
    obtain ⟨step, touched⟩ := context_step stepped
    refine ⟨touched.trans clean, ?_⟩
    rw [step]
    rcases undisturbed with returned | others
    · exact .inl returned
    · rw [context_same stepped others]
      exact inside
  | start addr => exact start_untouched stepped ⟨clean, inside⟩
  | requestStop =>
    rw [step] at stepped
    split at stepped
    · cases stepped
      exact ⟨clean, inside⟩
    · cases stepped
      split
      · exact stopForwarder_untouched ⟨clean, inside⟩
      · exact ⟨clean, inside⟩
  | heartbeat =>
    rw [step] at stepped
    split at stepped
    · next armed =>
      cases stepped
      rw [wake]
      split
      · exact ⟨clean, inside⟩
      · next free =>
        refine ⟨clean, .inl (undisturbed.resolve_right ?_)⟩
        simp [completes, armed, free]
    · cases stepped
  | deliverStopped =>
    rw [step] at stepped
    split at stepped
    · next posted =>
      cases stepped
      exact ⟨clean, .inl (undisturbed.resolve_right (by simp [completes, posted]))⟩
    · cases stepped

end Session

variable {kind : OperationKind} {capabilities : List Bytes} {s : Session}

theorem session_once (run : (sessionOperation kind capabilities).Reachable s) :
    s.op.exits.length ≤ 1 := by
  refine (run.invariant (fun s : Session => s.op.Standing) ?_ ?_).once
  · exact .running rfl rfl rfl fun _ => ⟨rfl, rfl, rfl, rfl⟩
  · exact fun before after action _ stands _ stepped => Session.step_stands stepped stands

/-- As long as nothing completes the receiver while `start` runs, the receiver is completed at most
    once and `start` uses nothing behind the completion. -/
theorem session_untouched
    (run : (sessionOperation kind capabilities).Guarded
      (fun s action => s.op.step = .returned ∨ s.completes action = false) s) :
    s.op.exits.length ≤ 1 ∧ s.op.touched = false := by
  have untouched : s.Untouched := by
    refine run.invariant Session.Untouched ⟨rfl, .inr rfl⟩ ?_
    exact fun before after action _ clean undisturbed stepped =>
      Session.step_untouched stepped undisturbed clean
  exact ⟨session_once run.reachable, untouched.1⟩

/-- A NOOP on an open context, whose reply comes once `start` has returned. -/
theorem noop_untouched : ∃ s : Session, s.op.exits = [.result none] ∧ s.op.exits.length ≤ 1 ∧
    s.op.touched = false := by
  obtain ⟨s, run, ended⟩ := (sessionOperation (.stateOp (.line noopCommand) []) []).guarded_of_trace
    (fun s action => decide (s.op.step = .returned ∨ s.completes action = false))
    [.context (.resume 0 .go), .start 0, .start 7, .context (.resume 3 .go), .start 0, .start 0,
    .start 0, .start 0, .start 0, .context (.resume 1 (.data [ascii "a0001 OK done"])),
    .context (.resume 1 .go), .context (.resume 1 .go)]
    (fun s => decide (s.op.exits = [.result none])) (fun _ _ allowed => of_decide_eq_true allowed)
    (by decide +kernel)
  exact ⟨s, of_decide_eq_true ended, session_untouched run⟩

/-- On a context that is closing, `submit` runs the handler inline; on an open one the reply may
    come before `submit` has returned. Either way the tag is stored in an operation that has
    completed. -/
theorem noop_touched :
    (∃ s, (sessionOperation (.stateOp (.line noopCommand) []) []).Reachable s ∧
      s.op.exits = [.result (some .operationCanceled)] ∧ s.op.touched = true) ∧
    ∃ s, (sessionOperation (.stateOp (.line noopCommand) []) []).Reachable s ∧
    s.op.exits = [.result none] ∧ s.op.touched = true := by
  constructor
  · obtain ⟨s, run, ended⟩ := (sessionOperation (.stateOp (.line noopCommand) []) []).reachable_of_trace
      [.context (.call .close), .start 0, .start 7, .context (.resume 3 .go), .context (.resume 3 .go),
        .context (.resume 3 .go), .start 0, .start 0]
      (fun s => decide (s.op.exits = [.result (some .operationCanceled)] ∧ s.op.touched = true))
        (by decide +kernel)
    exact ⟨s, run, of_decide_eq_true ended⟩
  · obtain ⟨s, run, ended⟩ := (sessionOperation (.stateOp (.line noopCommand) []) []).reachable_of_trace
      [.context (.resume 0 .go), .start 0, .start 7, .context (.resume 3 .go),
        .context (.resume 1 (.data [ascii "a0001 OK done"])), .context (.resume 1 .go),
        .context (.resume 1 .go), .start 0, .start 0]
      (fun s => decide (s.op.exits = [.result none] ∧ s.op.touched = true)) (by decide +kernel)
    exact ⟨s, run, of_decide_eq_true ended⟩

end Bkmail
