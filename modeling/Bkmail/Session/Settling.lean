import Bkmail.Session.Attempt
import Bkmail.Context.Control

namespace Bkmail

theorem Section.Controls.abandons {s : ContextCore} {sec : Section} {o : Outcome}
    (controls : sec.Controls s o) :
    o.core.abandoned = s.abandoned ∨ sec = .call .abandon := by
  cases controls with
  | idle _ _ control => exact .inl control.abandoned
  | suspend | finish | armWrite | armRead => exact .inl rfl
  | teardown _ _ _ _ gone => exact gone
  | kick => exact .inl (ContextCore.drain_agrees s.writeQueue s.newDrain).abandoned
  | writeEnd _ _ _ control => exact .inl control.abandoned
  | unwindRead =>
    left
    unfold ContextCore.maybeFinishClose
    split <;> rfl
  | readEnd _ _ _ control => exact .inl control.abandoned

/-- The destructor of the context has run: it abandoned the core, or found it closed. -/
def ContextCore.Quit (s : ContextCore) : Prop := s.abandoned = true ∨ s.phase = .closed

theorem System.step_quit {s t : System} {action : Action} (stepped : s.step action = some t) :
    (s.core.Quit → t.core.Quit) ∧ (action ≠ .call .abandon → t.core.abandoned = s.core.abandoned) ∧
      (action = .call .abandon → t.core.Quit) := by
  obtain ⟨sec, o, -, selected, ran, same, -, -⟩ := System.step_section stepped
  have runs := Section.runs ran
  have abandons : action = .call .abandon → o.core.Quit := by
    rintro rfl
    cases selected
    cases ran
    unfold ContextCore.abandon
    split
    · next closed => exact .inr closed
    · exact .inl rfl
  have named : sec = .call .abandon → action = .call .abandon := by
    rintro rfl
    cases action with
    | call c =>
      cases selected
      rfl
    | resume i choice =>
      obtain ⟨_, -, other⟩ := Option.map_eq_some_iff.mp selected
      cases other
  rw [same]
  refine ⟨fun quit => ?_, fun other => ?_, abandons⟩
  · rcases quit with gone | closed
    · rcases runs.controls.abandons with kept | abandon
      · exact .inl (kept.trans gone)
      · exact abandons (named abandon)
    · exact .inr (runs.controls.stays_closed closed)
  · exact runs.controls.abandons.resolve_right fun abandon => other (named abandon)

namespace Connect

section Spec

variable {s t : Connect} {work : ConnectWork} {next : List ConnectWork}

theorem call_quit (s : Connect) (c : Call) : (s.system.core.Quit → (s.call c).system.core.Quit) ∧
    (c ≠ .abandon → (s.call c).system.core.abandoned = s.system.core.abandoned) := by
  rw [call]
  cases stepped : s.system.step (.call c) with
  | none => exact ⟨id, fun _ => rfl⟩
  | some system =>
    obtain ⟨quit, kept, -⟩ := System.step_quit stepped
    exact ⟨quit, fun other => kept fun same => other (by cases same; rfl)⟩

theorem resetConnection_quit (s : Connect) (quit : s.owner = .destroyed → s.system.core.Quit)
    (present : s.owner ≠ .destroyed → s.system.core.abandoned = false) :
    (s.resetConnection.owner = .destroyed → s.resetConnection.system.core.Quit) ∧
      (s.resetConnection.owner ≠ .destroyed → s.resetConnection.system.core.abandoned = false) := by
  unfold resetConnection
  split
  · refine ⟨fun _ => ?_, fun other => absurd rfl other⟩
    show ((s.system.step (.call .abandon)).getD s.system).core.Quit
    obtain ⟨system, stepped⟩ : ∃ system, s.system.step (.call .abandon) = some system := ⟨_, rfl⟩
    rw [stepped]
    exact (System.step_quit stepped).2.2 rfl
  · exact ⟨quit, present⟩

structure Quits (s : Connect) : Prop where
  destroyed : s.owner = .destroyed → s.system.core.Quit
  present : s.owner ≠ .destroyed → s.system.core.abandoned = false

theorem Quits.runs (quits : s.Quits) (runs : s.Runs work t next)
    (free : work = .emplace → s.owner ≠ .destroyed)
    (taken : work = .deliver (.value none) → s.owner ≠ .destroyed) : t.Quits := by
  have reset := s.resetConnection_quit quits.destroyed quits.present
  cases runs with
  | emplace => exact ⟨nofun, fun _ => quits.present (free rfl)⟩
  | submit _ _ addr submitted =>
    obtain ⟨system, stepped, same⟩ := Option.map_eq_some_iff.mp submitted
    cases same
    obtain ⟨quit, kept⟩ := s.call_quit .allocateTag
    obtain ⟨quit', kept', -⟩ := System.step_quit stepped
    exact ⟨fun gone => quit' (quit (quits.destroyed gone)), fun here =>
      (kept' nofun).trans ((kept nofun).trans (quits.present here))⟩
  | flush =>
    obtain ⟨quit, kept⟩ := s.call_quit .flush
    exact ⟨fun gone => quit (quits.destroyed gone), fun here => (kept nofun).trans (quits.present here)⟩
  | deliver outcome =>
    rcases outcome with (_ | ec) | _
    · exact ⟨nofun, fun _ => quits.present (taken rfl)⟩
    · exact ⟨reset.1, reset.2⟩
    · exact ⟨reset.1, reset.2⟩
  | abandon => exact ⟨reset.1, reset.2⟩
  | _ => exact ⟨quits.destroyed, quits.present⟩

theorem Quits.context (quits : s.Quits) {thread : Nat} {choice : Choice}
    (stepped : s.context thread choice = some t) :
    t.Quits := by
  rw [Connect.context] at stepped
  split at stepped
  · cases stepped
  · split at stepped
    · next sec system _ moved =>
      cases stepped
      obtain ⟨quit, kept, -⟩ := System.step_quit moved
      exact ⟨fun gone => quit (quits.destroyed gone), fun here =>
        (kept fun same => by cases same).trans (quits.present here)⟩
    · cases stepped

theorem Quits.step (quits : s.Quits) (standing : s.Standing) {action : ConnectAction}
    (stepped : s.step action = some t) :
    t.Quits := by
  rcases step_runs stepped with ⟨_, _, moved⟩ | ⟨k, thread, work, u, next, found, runs,
    rfl⟩ | rfl | ⟨-, rfl⟩
  · exact quits.context moved
  · have here := List.mem_of_getElem? found
    have after : u.Quits := by
      refine quits.runs runs ?_ ?_
      · rintro rfl gone
        cases gone.symm.trans (standing.climbing _ here rfl).1
      · rintro rfl gone
        cases (standing.destroyed gone).2 _ here rfl
    exact ⟨after.destroyed, after.present⟩
  · exact quits
  · exact ⟨quits.destroyed, quits.present⟩

end Spec

end Connect

variable {useTls : Bool} {s : Connect}

theorem Connect.Quits.of_reachable (run : (asyncConnect useTls).Reachable s) : s.Quits := by
  refine run.invariant Quits ⟨fun gone => (by cases gone), fun _ =>
    rfl⟩ fun before after action earlier quits _ stepped => ?_
  rcases Standing.of_reachable earlier with standing | refused
  · exact quits.step standing stepped
  · rcases step_runs stepped with ⟨_, _, moved⟩ | ⟨k, _, _, _, _, found, -⟩ | rfl | ⟨-, rfl⟩
    · exact quits.context moved
    · simp [refused.tasks] at found
    · exact quits
    · exact ⟨quits.destroyed, quits.present⟩

/-- However the callbacks, the handlers and the stop come between each other, the receiver is
    completed once. A session comes with a connection that nobody abandoned; without one, no
    connection was made, or its context was abandoned first. -/
theorem connect_settles (run : (asyncConnect useTls).Reachable s) : s.exits.length ≤ 1 ∧ ∀ e ∈ s.exits,
    if e.session then s.owner = .receiver ∧ s.system.core.abandoned = false
    else s.owner = .absent ∨ s.owner = .destroyed ∧ s.system.core.Quit := by
  have quits := Connect.Quits.of_reachable run
  rcases Connect.Standing.of_reachable run with standing | refused
  · have balance := standing.balance
    have bound : s.completed.toNat ≤ 1 := Bool.toNat_le _
    refine ⟨by omega, fun e member => ?_⟩
    have settled := standing.exits e member
    cases session : e.session with
    | true =>
      rw [session, if_pos rfl] at settled
      exact ⟨settled, quits.present (by simp [settled])⟩
    | false =>
      rw [session] at settled
      exact settled.imp_right fun gone => ⟨gone, quits.destroyed gone⟩
  · rw [refused.exits]
    refine ⟨Nat.le_refl _, fun e member => ?_⟩
    rw [List.mem_singleton.mp member]
    exact .inl refused.owner

/-- A plaintext connect up to a session whose CAPABILITY has been written and whose read is
    armed. -/
def sessionUp : List ConnectAction :=
  [.task 0 .go, .task 0 .go, .task 0 (.resolved none 2), .task 0 .go, .task 0 .go, .task 0 (.done none),
    .task 0 (.done none), .task 0 .go, .task 0 .go, .task 0 .go, .task 0 .go, .task 0 (.at 7),
    .context 2 .go, .task 0 .go, .task 0 .go, .task 0 .go, .context 0 .go, .context 4 .done,
    .context 4 .go, .context 4 .go, .context 4 .go, .context 6 .done, .context 6 .go]

/-- The server greets with PREAUTH and answers the CAPABILITY. -/
theorem connect_settles_preauth :
    ∃ s : Connect, (∃ capabilities, s.exits = [.authenticated capabilities]) ∧
    s.owner = .receiver ∧ s.system.core.abandoned = false := by
  obtain ⟨s, run, here⟩ := (asyncConnect false).reachable_of_trace
    (sessionUp ++ [.context 5 (.data [ascii "* PREAUTH hi", ascii "a0001 OK done"]), .context 5 .go,
    .task 0 .go, .task 0 .go, .context 5 .go, .context 5 .go, .context 5 .go, .task 0 .go,
    .task 0 .go, .task 0 .go, .task 0 .go, .task 0 .go])
    (fun s => decide (s.exits = [.authenticated .empty])) (by decide)
  have exits := of_decide_eq_true here
  have settled := (connect_settles run).2 (.authenticated .empty) (by simp [exits])
  exact ⟨s, ⟨_, exits⟩, settled⟩

end Bkmail
