import Bkmail.Session.Settling

namespace Bkmail

def ConnectWork.dooms : ConnectWork → Bool
  | check _ | claimStopped | deliver .stopped => true
  | _ => false

namespace Connect

/-- A stop was latched, and nothing is under way that will look at the latch. -/
structure Stalled (s : Connect) : Prop where
  latch : s.stopLatch = true
  phase : s.phase = .session
  owner : s.owner = .operation
  exits : s.exits = []
  tasks : s.tasks = []

structure Doomed (s : Connect) : Prop where
  latch : s.stopLatch = true
  asked : s.stopRequested = true
  tasks : ∀ task ∈ s.tasks, task.2.dooms = true
  exits : ∀ e ∈ s.exits, e = .stopped
  pending : s.completed = true ∨ s.tasks ≠ []

variable {s t : Connect}

theorem Doomed.context (doomed : s.Doomed) {thread : Nat} {choice : Choice}
    (stepped : s.context thread choice = some t) :
    t.Doomed := by
  obtain ⟨-, -, system, missed, heard, calls, -, rfl⟩ := context_frame stepped
  refine ⟨doomed.latch, doomed.asked, fun task member => ?_, doomed.exits, ?_⟩
  · rcases List.mem_append.mp member with known | called
    · exact doomed.tasks task known
    · obtain ⟨next, -, rfl⟩ := List.mem_map.mp called
      rfl
  · exact doomed.pending.imp_right fun some none => some (List.append_eq_nil_iff.mp none).1

theorem Doomed.task (doomed : s.Doomed) (standing : s.Standing) {k : Nat} {thread : Option Nat}
    {work : ConnectWork}
    {next : List ConnectWork} (found : s.tasks[k]? = some (thread, work)) (runs : s.Runs work t next) :
    ({ t with tasks := s.tasks.eraseIdx k ++ next.map (thread, ·) } : Connect).Doomed := by
  have here := List.mem_of_getElem? found
  have dooms := doomed.tasks _ here
  have kept (follows : ∀ after ∈ next, after.dooms = true) :
      ∀ task ∈ s.tasks.eraseIdx k ++ next.map (thread, ·), task.2.dooms = true := by
    intro task member
    rcases Automaton.mem_exchange member with known | left
    · exact doomed.tasks task known
    · obtain ⟨after, inside, rfl⟩ := List.mem_map.mp left
      exact follows after inside
  cases runs with
  | latched =>
    exact ⟨doomed.latch, doomed.asked,
      kept fun _ member => by cases List.mem_singleton.mp member; rfl, doomed.exits,
      .inr (by simp)⟩
  | passed _ unset => cases unset.symm.trans doomed.latch
  | claimStopped =>
    exact ⟨doomed.latch, doomed.asked,
      kept fun _ member => by cases List.mem_singleton.mp member; rfl, doomed.exits,
      .inl rfl⟩
  | lost _ taken => exact ⟨doomed.latch, doomed.asked, kept nofun, doomed.exits, .inl taken⟩
  | deliver outcome =>
    have taken := (standing.claimed here rfl).1
    cases outcome with
    | value ec => cases dooms
    | stopped =>
      rw [finish, resetConnection_eq]
      refine ⟨doomed.latch, doomed.asked, kept nofun, fun e member => ?_, .inl taken⟩
      exact (List.mem_append.mp member).elim (doomed.exits e) List.mem_singleton.mp
  | phaseStopped _ place => rcases place with rfl | rfl | rfl <;> cases dooms
  | _ => cases dooms

theorem Doomed.step (doomed : s.Doomed) (standing : s.Standing) {action : ConnectAction}
    (stepped : s.step action = some t) :
    t.Doomed := by
  rcases step_runs stepped with ⟨_, _, moved⟩ | ⟨k, thread, work, u, next, found, runs,
    rfl⟩ | rfl | ⟨unasked, rfl⟩
  · exact doomed.context moved
  · exact doomed.task standing found runs
  · exact doomed
  · cases unasked.symm.trans doomed.asked

theorem Doomed.settled (doomed : s.Doomed) (standing : s.Standing) (idle : s.tasks = []) :
    s.exits = [.stopped] := by
  have balance := standing.balance
  have taken : s.completed = true := doomed.pending.resolve_right (not_not_intro idle)
  have one : s.exits.length = 1 := by
    simp only [owners, idle, List.countP_nil, taken, Bool.toNat_true] at balance
    omega
  obtain ⟨e, same⟩ := List.length_eq_one_iff.mp one
  rw [same, doomed.exits e (by simp [same])]

theorem Stalled.step (stalled : s.Stalled) (asked : s.stopRequested = true) {action : ConnectAction}
    (stepped : s.step action = some t) : t.Stalled ∨ t.Doomed := by
  rcases step_runs stepped with ⟨_, _, moved⟩ | ⟨_, _, _, _, _, found, -⟩ | rfl | ⟨unasked, -⟩
  · obtain ⟨-, -, system, missed, heard, calls, -, rfl⟩ := context_frame moved
    cases calls with
    | nil => exact .inl ⟨stalled.latch, stalled.phase, stalled.owner,
        stalled.exits, by simp [stalled.tasks]⟩
    | cons next calls =>
      refine .inr ⟨stalled.latch, asked, fun task member => ?_, ?_, .inr (by simp)⟩
      · rw [stalled.tasks, List.nil_append] at member
        obtain ⟨next, -, rfl⟩ := List.mem_map.mp member
        rfl
      · rw [stalled.exits]
        exact nofun
  · simp [stalled.tasks] at found
  · exact .inl stalled
  · cases unasked.symm.trans asked

end Connect

variable {useTls : Bool} {s : Connect}

/-- A stop that was requested either finds the receiver completed once the threads are done, or has
    come too late for the callbacks and waits in the latch for a handler. The session is then kept
    up for as long as none is called, and the first one that is ends in the stopped completion,
    however the other threads come between. -/
theorem connect_stop (run : (asyncConnect useTls).Reachable s) (asked : s.stopRequested = true)
    (idle : s.tasks = []) :
    s.exits ≠ [] ∨ s.Stalled ∧ ∀ action t, s.step action = some t →
      t.Stalled ∨ ∀ u, (asyncConnect useTls).Leads t u → u.tasks = [] → u.exits = [.stopped] := by
  rcases Connect.Standing.of_reachable run with standing | refused
  · by_cases none : s.exits = []
    · have free : s.completed = false := by
        have balance := standing.balance
        rw [none, Connect.owners, idle] at balance
        exact Bool.not_eq_true _ ▸ fun taken => by simp [taken] at balance
      have latch : s.stopLatch = true := by
        rcases standing.stop asked with taken | latched | ⟨task, member, -⟩
        · cases taken.symm.trans free
        · exact latched
        · simp [idle] at member
      have phase : s.phase = .session := by
        refine (standing.progress free).resolve_left ?_
        simp [Connect.chains, idle]
      have owner : s.owner = .operation := by
        cases place : s.owner with
        | operation => rfl
        | absent => exact absurd place (standing.session phase)
        | receiver => exact absurd none (standing.receiver place)
        | destroyed => cases (standing.destroyed place).1.symm.trans free
      have stalled : s.Stalled := ⟨latch, phase, owner, none, idle⟩
      refine .inr ⟨stalled, fun action t stepped =>
        (stalled.step asked stepped).imp_right fun doomed u leads quiet => ?_⟩
      have reached : (asyncConnect useTls).Reachable t := run.next True.intro stepped
      have after : u.Standing ∧ u.Doomed ∨ u.Refused := by
        refine leads.invariant (fun u => u.Standing ∧ u.Doomed ∨ u.Refused)
          ((Connect.Standing.of_reachable reached).imp_left (⟨·, doomed⟩))
            fun _ _ _ _ before stepped => ?_
        rcases before with ⟨standing, doomed⟩ | refused
        · exact (standing.step stepped).imp_left (⟨·, doomed.step standing stepped⟩)
        · exact .inr (refused.step stepped)
      rcases after with ⟨standing, doomed⟩ | refused
      · exact doomed.settled standing quiet
      · exact refused.exits
    · exact .inl none
  · exact .inl (by simp [refused.exits])

/-- The stop comes while `begin_session` runs: it is latched after the last callback has looked, and
    before the session is published. -/
def stopMissed : List ConnectAction :=
  sessionUp.take 15 ++ [.requestStop, .task 1 .go, .task 1 .go, .task 0 .go]

theorem connect_stop_stalled : ∃ s : Connect, s.stopRequested = true ∧ s.Stalled ∧
    ∀ action t, s.step action = some t →
      t.Stalled ∨ ∀ u, (asyncConnect false).Leads t u → u.tasks = [] → u.exits = [.stopped] := by
  obtain ⟨s, run, here⟩ := (asyncConnect false).reachable_of_trace stopMissed
    (fun s => decide (s.stopRequested = true ∧ s.tasks = [] ∧ s.exits = [])) (by decide)
  obtain ⟨asked, idle, none⟩ := of_decide_eq_true here
  exact ⟨s, asked, (connect_stop run asked idle).resolve_left (not_not_intro none)⟩

end Bkmail
