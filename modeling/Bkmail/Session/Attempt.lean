import Bkmail.Session.Connect

namespace Bkmail

namespace Connect

inductive Runs (s : Connect) : ConnectWork → Connect → List ConnectWork → Prop where
  | refused : s.stopRequested = true → Runs s .start { s with exits := s.exits ++ [.stopped] } []
  | started : s.stopRequested = false → Runs s .start s [.registerStop, .resolving]
  | registered : s.stopRequested = false → Runs s .registerStop { s with stopCallback := true } []
  | forwarded : s.stopRequested = true → Runs s .registerStop { s with stopCallback := true } [.forward]
  | resolved (ec : Option ErrorCode) (count : Nat) : Runs s .resolving s [.check (.resolved ec count)]
  | connected (ec : Option ErrorCode) : Runs s .connecting s [.check (.connected ec)]
  | shaken (ec : Option ErrorCode) : Runs s .handshaking s [.check (.shaken ec)]
  | phaseStopped (work : ConnectWork) : work = .resolving ∨ work = .connecting ∨ work = .handshaking →
      Runs s work s [.check .phaseStopped]
  | openFailed (ec : ErrorCode) : Runs s .openSocket s [.complete (some ec)]
  | opened : Runs s .openSocket s [.connecting]
  | latched (next : ConnectStep) : s.stopLatch = true → Runs s (.check next) s [.claimStopped]
  | passed (next : ConnectStep) : s.stopLatch = false → Runs s (.check next) s [.proceed next]
  | failed (step : ConnectStep) (ec : ErrorCode) : Runs s (.proceed step) s [.complete (some ec)]
  | toConnect (count : Nat) :
      Runs s (.proceed (.resolved none count)) { s with phase := .tcpConnect } [.openSocket]
  | toHandshake : s.useTls = true →
      Runs s (.proceed (.connected none)) { s with phase := .handshake } [.handshaking]
  | toSession (step : ConnectStep) : step = .connected none ∨ step = .shaken none →
      Runs s (.proceed step) s [.emplace]
  | greeted (event : UnsolicitedEvent) : greetingKindOf event ≠ .bye → s.greetingSeen = false →
      event.isGreeting = true →
      Runs s (.proceed (.greeted event)) { s with greetingSeen := true, greeting := greetingKindOf event } []
  | ignored (event : UnsolicitedEvent) : greetingKindOf event ≠ .bye →
      s.greetingSeen = true ∨ event.isGreeting = false →
      Runs s (.proceed (.greeted event)) s []
  | probed (capabilities : CapabilitySet) :
      Runs s (.proceed (.probed none capabilities)) s [.cache capabilities]
  | lost (work : ConnectWork) : s.completed = true →
      work = .claimStopped ∨ (∃ ec, work = .complete ec) ∨ work = .claim →
      Runs s work s []
  | claimStopped : s.completed = false →
      Runs s .claimStopped { s with completed := true } [.deliver .stopped]
  | complete (ec : Option ErrorCode) : s.completed = false →
      Runs s (.complete ec) { s with completed := true } [.deliver (.value ec)]
  | claim : s.completed = false → Runs s .claim { s with completed := true } [.abandon]
  | cache (capabilities : CapabilitySet) :
      Runs s (.cache capabilities) { s with capabilities } [.complete none]
  | deliver (outcome : Delivery) : Runs s (.deliver outcome) (s.finish outcome) []
  | emplace : Runs s .emplace { s with owner := .operation } [.subscribe]
  | subscribe : Runs s .subscribe { s with listening := true } [.submit]
  | submit (t : Connect) (thread addr : Nat) : s.submit addr = some (t, [.submitting thread]) →
      Runs s .submit t [.submitting thread]
  | submitted (thread : Nat) : s.system.threads[thread]? = some [] →
      Runs s (.submitting thread) s [.flush]
  | flush : Runs s .flush (s.call .flush) [.publish]
  | publish : Runs s .publish { s with phase := .session } []
  | forward (work : ConnectWork) : work = (if s.phase = .session then .claim else .latch) →
      Runs s .forward s [work]
  | latch : Runs s .latch { s with stopLatch := true } []
  | abandon : Runs s .abandon { s.resetConnection with listening := false, stopCallback := false }
      [.stoppedPosted]
  | stoppedPosted : Runs s .stoppedPosted { s with exits := s.exits ++ [.stopped] } []

theorem proceed_runs (s : Connect) (step : ConnectStep) :
    s.Runs (.proceed step) (s.proceed step).1 (s.proceed step).2 := by
  cases step with
  | resolved ec count =>
    cases ec with
    | some ec => exact .failed _ ec
    | none =>
      cases count with
      | zero => exact .failed _ hostUnreachable
      | succ count => exact .toConnect _
  | connected ec =>
    cases ec with
    | some ec => exact .failed _ ec
    | none =>
      simp only [proceed]
      split
      · next tls => exact .toHandshake tls
      · exact .toSession _ (.inl rfl)
  | shaken ec =>
    cases ec with
    | some ec => exact .failed _ ec
    | none => exact .toSession _ (.inr rfl)
  | phaseStopped => exact .failed _ .operationCanceled
  | greeted event =>
    simp only [proceed]
    split
    · exact .failed _ .serverBye
    · next kept =>
      split
      · next first =>
        obtain ⟨unseen, greets⟩ := Bool.and_eq_true_iff.mp first
        exact .greeted event kept (by simpa using unseen) greets
      · next later =>
        refine .ignored event kept ?_
        cases seen : s.greetingSeen with
        | true => exact .inl rfl
        | false => exact .inr (by simpa [seen] using later)
  | probed ec capabilities =>
    cases ec with
    | some ec => exact .failed _ ec
    | none => exact .probed capabilities

theorem runs_of_run {s t : Connect} {work : ConnectWork} {answer : ConnectAnswer} {next : List ConnectWork}
    (ran : s.run work answer = some (t, next)) : s.Runs work t next := by
  have exchange {work : ConnectWork} {outcome : ConnectWork}
      (lost : s.completed = true → s.Runs work s [])
      (won : s.completed = false → s.Runs work { s with completed := true } [outcome])
      (ran : (if s.completed then (s, []) else ({ s with completed := true }, [outcome])) = (t, next)) :
      s.Runs work t next := by
    cases taken : s.completed with
    | true =>
      rw [taken] at ran
      cases ran
      exact lost taken
    | false =>
      rw [taken] at ran
      cases ran
      exact won taken
  cases work with
  | start =>
    cases answer with
    | go =>
      simp only [run] at ran
      split at ran
      · next yes =>
        cases ran
        exact .refused yes
      · next no =>
        cases ran
        exact .started (Bool.not_eq_true _ ▸ no)
    | _ => cases ran
  | registerStop =>
    cases answer with
    | go =>
      simp only [run] at ran
      split at ran
      · next yes =>
        cases ran
        exact .forwarded yes
      · next no =>
        cases ran
        exact .registered (Bool.not_eq_true _ ▸ no)
    | _ => cases ran
  | resolving =>
    cases answer with
    | resolved ec count => cases ran; exact .resolved ec count
    | stopped => cases ran; exact .phaseStopped _ (.inl rfl)
    | _ => cases ran
  | openSocket =>
    cases answer with
    | done ec =>
      cases ec with
      | none => cases ran; exact .opened
      | some ec => cases ran; exact .openFailed ec
    | _ => cases ran
  | connecting =>
    cases answer with
    | done ec => cases ran; exact .connected ec
    | stopped => cases ran; exact .phaseStopped _ (.inr (.inl rfl))
    | _ => cases ran
  | handshaking =>
    cases answer with
    | done ec => cases ran; exact .shaken ec
    | stopped => cases ran; exact .phaseStopped _ (.inr (.inr rfl))
    | _ => cases ran
  | check step =>
    cases answer with
    | go =>
      cases ran
      cases latched : s.stopLatch with
      | true => exact .latched step latched
      | false => exact .passed step latched
    | _ => cases ran
  | proceed step =>
    cases answer with
    | go =>
      have same := Option.some.inj (show some (s.proceed step) = some (t, next) from ran)
      have runs := s.proceed_runs step
      rwa [same] at runs
    | _ => cases ran
  | claimStopped =>
    cases answer with
    | go => exact exchange (fun taken => .lost _ taken (.inl rfl)) .claimStopped (Option.some.inj ran)
    | _ => cases ran
  | complete ec =>
    cases answer with
    | go => exact exchange (fun taken =>
        .lost _ taken (.inr (.inl ⟨ec, rfl⟩))) (.complete ec) (Option.some.inj ran)
    | _ => cases ran
  | claim =>
    cases answer with
    | go => exact exchange (fun taken => .lost _ taken (.inr (.inr rfl))) .claim (Option.some.inj ran)
    | _ => cases ran
  | submit =>
    cases answer with
    | «at» addr =>
      have ran : s.submit addr = some (t, next) := ran
      obtain ⟨system, -, same⟩ := Option.map_eq_some_iff.mp ran
      cases same
      exact .submit _ _ addr ran
    | _ => cases ran
  | submitting thread =>
    cases answer with
    | go =>
      by_cases empty : s.system.threads[thread]? = some []
      · simp only [run, empty, if_true, Option.some.injEq, Prod.mk.injEq] at ran
        obtain ⟨rfl, rfl⟩ := ran
        exact .submitted thread empty
      · simp [run, empty] at ran
    | _ => cases ran
  | forward =>
    cases answer with
    | go =>
      cases ran
      exact .forward _ rfl
    | _ => cases ran
  | cache | deliver | emplace | subscribe | flush | publish | latch | abandon | stoppedPosted =>
    cases answer with
    | go =>
      cases ran
      constructor
    | _ => cases ran

theorem step_runs {s t : Connect} {action : ConnectAction} (stepped : s.step action = some t) :
    (∃ thread choice, s.context thread choice = some t) ∨
      (∃ k thread work u next, s.tasks[k]? = some (thread, work) ∧ s.Runs work u next ∧
        t = { u with tasks := s.tasks.eraseIdx k ++ next.map (thread, ·) }) ∨
      t = s ∨ s.stopRequested = false ∧
        t = { s with
          stopRequested := true
          tasks := if s.stopCallback then s.tasks ++ [(none, .forward)] else s.tasks } := by
  cases action with
  | context thread choice => exact .inl ⟨thread, choice, stepped⟩
  | task k answer =>
    simp only [step] at stepped
    split at stepped
    · cases stepped
    · next thread work found =>
      obtain ⟨⟨u, next⟩, ran, rfl⟩ := Option.map_eq_some_iff.mp stepped
      exact .inr (.inl ⟨k, thread, work, u, next, found, runs_of_run ran, rfl⟩)
  | requestStop =>
    cases stepped
    split
    · exact .inr (.inr (.inl rfl))
    · next unasked => exact .inr (.inr (.inr ⟨Bool.not_eq_true _ ▸ unasked, rfl⟩))

@[simp] theorem call_eq (s : Connect) (c : Call) :
    s.call c = { s with system := (s.system.step (.call c)).getD s.system } := rfl

theorem resetConnection_eq (s : Connect) : s.resetConnection = { s with
    system := s.resetConnection.system
    owner := if s.owner = .operation then .destroyed else s.owner } := by
  unfold resetConnection
  split <;> rfl

end Connect

/-- The tasks that will complete the receiver; whoever starts one of them has the claim. -/
def ConnectWork.owns : ConnectWork → Bool
  | deliver _ | abandon | stoppedPosted => true
  | _ => false

def ConnectStep.handles : ConnectStep → Bool
  | greeted _ | probed .. => true
  | resolved .. | connected _ | shaken _ | phaseStopped => false

def ConnectWork.climbs : ConnectWork → Bool
  | start | resolving | openSocket | connecting | handshaking | emplace => true
  | check next | proceed next => !next.handles
  | _ => false

def ConnectWork.begins : ConnectWork → Bool
  | subscribe | submit | submitting _ | flush | publish => true
  | _ => false

/-- A link of the chain of callbacks: the next one, or what is left of it once it has an outcome. -/
def ConnectWork.links : ConnectWork → Bool
  | claimStopped | complete _ | deliver _ => true
  | work => work.climbs || work.begins

def ConnectWork.foreign : ConnectWork → Bool
  | check next | proceed next => next.handles
  | cache _ => true
  | _ => false

def ConnectWork.forwards : ConnectWork → Bool
  | claim | abandon | stoppedPosted => true
  | _ => false

def ConnectWork.registers : ConnectWork → Bool
  | start | registerStop => true
  | _ => false

def ConnectWork.asks : ConnectWork → Bool
  | forward | latch | claim => true
  | work => work.registers

def ConnectExit.session : ConnectExit → Bool
  | notAuthenticated _ | authenticated _ => true
  | logout _ | stopped => false

namespace Connect

section Spec

variable {s t : Connect} {work : ConnectWork} {next : List ConnectWork}

theorem submit_frame {addr : Nat} (submitted : s.submit addr = some (t, next)) :
    t = { s with system := t.system, probe := t.probe } := by
  obtain ⟨system, -, same⟩ := Option.map_eq_some_iff.mp submitted
  cases same
  rfl

theorem finish_frame (s : Connect) (outcome : Delivery) : ∃ system owner exits,
    s.finish outcome = { s with stopCallback := false, system, owner, exits } := by
  rcases outcome with (_ | ec) | _
  · exact ⟨_, _, _, rfl⟩
  · rw [finish, resetConnection_eq]
    exact ⟨_, _, _, rfl⟩
  · rw [finish, resetConnection_eq]
    exact ⟨_, _, _, rfl⟩

theorem Runs.deliver_eq {outcome : Delivery} (runs : s.Runs (.deliver outcome) t next) :
    t = s.finish outcome ∧ next = [] := by
  cases runs with
  | deliver => exact ⟨rfl, rfl⟩
  | phaseStopped _ place => rcases place with same | same | same <;> cases same
  | lost _ _ place => rcases place with same | ⟨_, same⟩ | same <;> cases same

theorem Runs.publish_eq (runs : s.Runs .publish t next) :
    t = { s with phase := .session } ∧ next = [] := by
  cases runs with
  | publish => exact ⟨rfl, rfl⟩
  | phaseStopped _ place => rcases place with same | same | same <;> cases same
  | lost _ _ place => rcases place with same | ⟨_, same⟩ | same <;> cases same

theorem Runs.frame (runs : s.Runs work t next) : t.tasks = s.tasks ∧ t.stopRequested = s.stopRequested ∧
    t.heard = s.heard ∧ t.missed = s.missed := by
  cases runs with
  | submit _ _ addr submitted =>
    rw [submit_frame submitted]
    exact ⟨rfl, rfl, rfl, rfl⟩
  | deliver outcome =>
    obtain ⟨_, _, _, same⟩ := s.finish_frame outcome
    rw [same]
    exact ⟨rfl, rfl, rfl, rfl⟩
  | abandon =>
    rw [resetConnection_eq]
    exact ⟨rfl, rfl, rfl, rfl⟩
  | _ => exact ⟨rfl, rfl, rfl, rfl⟩

/-- A claim is made by one task and handed on until the receiver is completed. -/
theorem Runs.balance (runs : s.Runs work t next) (unstarted : work ≠ .start) :
    next.countP (·.owns) + t.exits.length + s.completed.toNat =
      (if work.owns then 1 else 0) + s.exits.length + t.completed.toNat := by
  cases runs with
  | refused | started => exact absurd rfl unstarted
  | phaseStopped _ place => rcases place with rfl | rfl | rfl <;> simp [ConnectWork.owns]
  | lost _ _ place => rcases place with rfl | ⟨_, rfl⟩ | rfl <;> simp [ConnectWork.owns]
  | forward _ place =>
    subst place
    split <;> simp [ConnectWork.owns]
  | submit _ _ addr submitted =>
    rw [submit_frame submitted]
    simp [ConnectWork.owns]
  | deliver outcome =>
    rcases outcome with (_ | ec) | _
    · simp [finish, ConnectWork.owns]
      omega
    · rw [finish, resetConnection_eq]
      simp [ConnectWork.owns]
      omega
    · rw [finish, resetConnection_eq]
      simp [ConnectWork.owns]
      omega
  | abandon =>
    rw [resetConnection_eq]
    simp [ConnectWork.owns]
  | stoppedPosted =>
    simp [ConnectWork.owns]
    omega
  | claimStopped free | complete _ free | claim free =>
    simp [ConnectWork.owns, free]
    omega
  | _ => simp [ConnectWork.owns]

theorem Runs.completed (runs : s.Runs work t next) : s.completed = true → t.completed = true := by
  intro taken
  cases runs with
  | submit _ _ addr submitted =>
    rw [submit_frame submitted]
    exact taken
  | deliver outcome =>
    obtain ⟨_, _, _, same⟩ := s.finish_frame outcome
    rw [same]
    exact taken
  | abandon =>
    rw [resetConnection_eq]
    exact taken
  | claimStopped | complete | claim => rfl
  | _ => exact taken

/-- Who takes `connection_` from whom. -/
theorem Runs.owner (runs : s.Runs work t next) :
    (work = .emplace ∧ t.owner = .operation) ∨ (work = .deliver (.value none) ∧ t.owner = .receiver) ∨
      (work.owns = true ∧ s.owner = .operation ∧ t.owner = .destroyed) ∨
      (t.owner = s.owner ∧ work ≠ .emplace ∧ work ≠ .deliver (.value none)) := by
  have taken {u : Connect} (same : u.owner = if s.owner = .operation then .destroyed else s.owner) :
      s.owner = .operation ∧ u.owner = .destroyed ∨ u.owner = s.owner := by
    rw [same]
    split
    · next held => exact .inl ⟨held, rfl⟩
    · exact .inr rfl
  cases runs with
  | emplace => exact .inl ⟨rfl, rfl⟩
  | submit _ _ addr submitted =>
    rw [submit_frame submitted]
    exact .inr (.inr (.inr ⟨rfl, nofun, nofun⟩))
  | deliver outcome =>
    rcases outcome with (_ | ec) | _
    · exact .inr (.inl ⟨rfl, rfl⟩)
    · rcases taken (u := s.finish (.value (some ec))) (by rw [finish, resetConnection_eq])
        with ⟨held, gone⟩ | same
      · exact .inr (.inr (.inl ⟨rfl, held, gone⟩))
      · exact .inr (.inr (.inr ⟨same, nofun, by simp⟩))
    · rcases taken (u := s.finish .stopped) (by rw [finish, resetConnection_eq])
        with ⟨held, gone⟩ | same
      · exact .inr (.inr (.inl ⟨rfl, held, gone⟩))
      · exact .inr (.inr (.inr ⟨same, nofun, by simp⟩))
  | abandon =>
    rcases taken (u := { s.resetConnection with listening := false, stopCallback := false })
      (by rw [resetConnection_eq]) with ⟨held, gone⟩ | same
    · exact .inr (.inr (.inl ⟨rfl, held, gone⟩))
    · exact .inr (.inr (.inr ⟨same, nofun, nofun⟩))
  | phaseStopped _ place =>
      rcases place with rfl | rfl | rfl <;> exact .inr (.inr (.inr ⟨rfl, nofun, nofun⟩))
  | lost _ _ place =>
      rcases place with rfl | ⟨_, rfl⟩ | rfl <;> exact .inr (.inr (.inr ⟨rfl, nofun, nofun⟩))
  | _ => exact .inr (.inr (.inr ⟨rfl, nofun, nofun⟩))

theorem Runs.phase (runs : s.Runs work t next) :
    (work = .publish ∧ t.phase = .session) ∨ (work.climbs = true ∧ t.phase ≠ .session) ∨
    t.phase = s.phase := by
  cases runs with
  | publish => exact .inl ⟨rfl, rfl⟩
  | toConnect | toHandshake => exact .inr (.inl ⟨rfl, nofun⟩)
  | submit _ _ addr submitted =>
    rw [submit_frame submitted]
    exact .inr (.inr rfl)
  | deliver outcome =>
    obtain ⟨_, _, _, same⟩ := s.finish_frame outcome
    rw [same]
    exact .inr (.inr rfl)
  | abandon =>
    rw [resetConnection_eq]
    exact .inr (.inr rfl)
  | _ => exact .inr (.inr rfl)

theorem Runs.links (runs : s.Runs work t next) (own : work.foreign = false) :
    next.countP (·.links) ≤ if work.links then 1 else 0 := by
  cases runs with
  | phaseStopped _ place =>
    rcases place with rfl | rfl | rfl <;>
      simp [ConnectWork.links, ConnectWork.climbs, ConnectWork.begins, ConnectStep.handles]
  | lost _ _ place => rcases place with rfl | ⟨_, rfl⟩ | rfl <;> simp [ConnectWork.links]
  | forward _ place =>
    subst place
    split <;> simp [ConnectWork.links, ConnectWork.climbs, ConnectWork.begins]
  | latched step | passed step | failed step =>
    have inner : step.handles = false := own
    simp [ConnectWork.links, ConnectWork.climbs, ConnectWork.begins, inner]
  | toSession step =>
    have inner : step.handles = false := own
    simp [ConnectWork.links, ConnectWork.climbs, ConnectWork.begins, inner]
  | cache | probed | greeted | ignored => cases own
  | _ => simp [ConnectWork.links, ConnectWork.climbs, ConnectWork.begins, ConnectStep.handles]

theorem Runs.progress (runs : s.Runs work t next) (own : work.foreign = false)
    (link : work.links = true)
    (started : work = .start → s.stopRequested = false) (free : t.completed = false)
    (ended : next.countP (·.links) = 0) (once : work.owns = true → s.completed = true) :
    t.phase = .session := by
  cases runs with
  | publish => rfl
  | refused asked => cases asked.symm.trans (started rfl)
  | phaseStopped _ place =>
    rcases place with rfl | rfl | rfl <;>
      simp [ConnectWork.links, ConnectWork.climbs, ConnectWork.begins, ConnectStep.handles] at ended
  | lost _ taken => cases taken.symm.trans free
  | deliver outcome =>
    have taken := (Runs.deliver outcome).completed (once rfl)
    cases taken.symm.trans free
  | latched step | passed step | failed step =>
    have inner : step.handles = false := own
    simp [ConnectWork.links, ConnectWork.climbs, ConnectWork.begins, inner] at ended
  | registered | forwarded | forward | latch | abandon | stoppedPosted | claim | cache =>
    simp [ConnectWork.links, ConnectWork.climbs, ConnectWork.begins] at link
  | probed | greeted | ignored => cases own
  | _ => simp [ConnectWork.links, ConnectWork.climbs, ConnectWork.begins, ConnectStep.handles] at ended

/-- Where a task that a step leaves comes from. -/
theorem Runs.rises (runs : s.Runs work t next) {after : ConnectWork} (left : after ∈ next) :
    after ≠ .start ∧
    (after.climbs = true → work.climbs = true ∧ t.owner = s.owner ∧ t.completed = s.completed) ∧
      (after.begins = true → work.begins = true ∨ work = .emplace) ∧
      (after.foreign = true → work.foreign = true) ∧
      (after.forwards = true → work.forwards = true ∨ s.phase = .session) ∧
      (after = .stoppedPosted → work = .abandon) ∧
      (after.owns = true → s.completed = false ∨ work = .abandon ∧ after = .stoppedPosted) := by
  cases runs with
  | started =>
    rcases List.mem_pair.mp left with rfl | rfl <;>
      simp [ConnectWork.climbs, ConnectWork.begins, ConnectWork.foreign, ConnectWork.forwards,
        ConnectWork.owns]
  | refused | registered | greeted | ignored | lost | deliver | publish | latch | stoppedPosted =>
      cases left
  | phaseStopped _ place =>
    rcases place with rfl | rfl | rfl <;> cases List.mem_singleton.mp left <;>
      simp [ConnectWork.climbs, ConnectWork.begins, ConnectWork.foreign, ConnectWork.forwards,
        ConnectWork.owns, ConnectStep.handles]
  | forward _ place =>
    cases List.mem_singleton.mp left
    subst place
    split
    · next session => simp [ConnectWork.climbs, ConnectWork.begins, ConnectWork.foreign,
        ConnectWork.owns, session]
    · simp [ConnectWork.climbs, ConnectWork.begins, ConnectWork.foreign, ConnectWork.forwards,
        ConnectWork.owns]
  | latched step | passed step | failed step =>
    cases List.mem_singleton.mp left
    simp [ConnectWork.climbs, ConnectWork.begins, ConnectWork.foreign, ConnectWork.forwards,
      ConnectWork.owns]
  | toSession _ place =>
    rcases place with rfl | rfl <;> cases List.mem_singleton.mp left <;>
      simp [ConnectWork.climbs, ConnectWork.begins, ConnectWork.foreign, ConnectWork.forwards,
        ConnectWork.owns, ConnectStep.handles]
  | claimStopped free | complete _ free | claim free =>
    cases List.mem_singleton.mp left
    simp [ConnectWork.climbs, ConnectWork.begins, ConnectWork.foreign, ConnectWork.forwards, free]
  | _ =>
    cases List.mem_singleton.mp left
    simp [ConnectWork.climbs, ConnectWork.begins, ConnectWork.foreign, ConnectWork.forwards,
      ConnectWork.owns, ConnectStep.handles]

theorem Runs.exits (runs : s.Runs work t next) : t.exits = s.exits ∨ ∃ e, t.exits = s.exits ++ [e] ∧
    (work = .start ∧ s.stopRequested = true ∧ e = .stopped ∨ work = .deliver (.value none) ∧
    e.session = true ∨ work = .stoppedPosted ∧ e = .stopped ∨
      (∃ outcome, work = .deliver outcome ∧ outcome ≠ .value none) ∧ e.session = false) := by
  cases runs with
  | refused asked => exact .inr ⟨_, rfl, .inl ⟨rfl, asked, rfl⟩⟩
  | stoppedPosted => exact .inr ⟨_, rfl, .inr (.inr (.inl ⟨rfl, rfl⟩))⟩
  | submit _ _ addr submitted =>
    rw [submit_frame submitted]
    exact .inl rfl
  | deliver outcome =>
    rcases outcome with (_ | ec) | _
    · refine .inr ⟨_, rfl, .inr (.inl ⟨rfl, ?_⟩)⟩
      split <;> rfl
    · exact .inr ⟨.logout ec, rfl, .inr (.inr (.inr ⟨⟨_, rfl, by simp⟩, rfl⟩))⟩
    · exact .inr ⟨.stopped, rfl, .inr (.inr (.inr ⟨⟨_, rfl, nofun⟩, rfl⟩))⟩
  | abandon =>
    rw [resetConnection_eq]
    exact .inl rfl
  | _ => exact .inl rfl

/-- The stop callback is reset by a task that has the claim, and a stop that was requested stays
    asked for. -/
theorem Runs.stops (runs : s.Runs work t next) (started : work = .start → s.stopRequested = false) :
    (s.stopLatch = true → t.stopLatch = true) ∧
      (t.stopCallback = false → work.owns = true ∨
        s.stopCallback = false ∧ (work.registers = true → ∃ after ∈ next, after.registers = true)) ∧
      (s.stopRequested = true → work.asks = true → t.completed = true ∨ t.stopLatch = true ∨
        ∃ after ∈ next, after.asks = true) := by
  cases runs with
  | refused asked => cases asked.symm.trans (started rfl)
  | started => exact ⟨id, fun off => .inr ⟨off, fun _ => ⟨_, List.mem_cons_self, rfl⟩⟩, fun _ _ =>
      .inr (.inr ⟨_, List.mem_cons_self, rfl⟩)⟩
  | registered unasked => exact ⟨id, nofun, fun asked => by cases asked.symm.trans unasked⟩
  | forwarded => exact ⟨id, nofun, fun _ _ => .inr (.inr ⟨_, List.mem_cons_self, rfl⟩)⟩
  | phaseStopped _ place =>
      rcases place with rfl | rfl | rfl <;> exact ⟨id, fun off => .inr ⟨off, nofun⟩, fun _ => nofun⟩
  | lost _ taken place =>
    rcases place with rfl | ⟨_, rfl⟩ | rfl <;> exact ⟨id, fun off => .inr ⟨off, nofun⟩,
      fun _ _ => .inl taken⟩
  | forward _ place =>
    refine ⟨id, fun off => .inr ⟨off, nofun⟩, fun _ _ => .inr (.inr ⟨_, List.mem_cons_self, ?_⟩)⟩
    subst place
    split <;> rfl
  | latch => exact ⟨fun _ => rfl, fun off => .inr ⟨off, nofun⟩, fun _ _ => .inr (.inl rfl)⟩
  | submit _ _ addr submitted =>
    rw [submit_frame submitted]
    exact ⟨id, fun off => .inr ⟨off, nofun⟩, fun _ => nofun⟩
  | deliver outcome =>
    obtain ⟨_, _, _, same⟩ := s.finish_frame outcome
    rw [same]
    exact ⟨id, fun _ => .inl rfl, fun _ => nofun⟩
  | abandon =>
    rw [resetConnection_eq]
    exact ⟨id, fun _ => .inl rfl, fun _ => nofun⟩
  | claim => exact ⟨id, fun off => .inr ⟨off, nofun⟩, fun _ _ => .inl rfl⟩
  | _ => exact ⟨id, fun off => .inr ⟨off, nofun⟩, fun _ => nofun⟩

theorem Runs.idle (runs : s.Runs work t next) (link : work.links = false) (own : work.foreign = false)
    (before : work.forwards = false) : t.owner = s.owner ∧ t.completed = s.completed := by
  cases runs with
  | registered | forwarded | forward | latch => exact ⟨rfl, rfl⟩
  | phaseStopped _ place => rcases place with rfl | rfl | rfl <;> exact ⟨rfl, rfl⟩
  | lost => exact ⟨rfl, rfl⟩
  | latched | passed | failed | started | refused | resolved | connected | shaken | openFailed | opened =>
    exact ⟨rfl, rfl⟩
  | toConnect | toHandshake | toSession => exact ⟨rfl, rfl⟩
  | cache | probed | greeted | ignored => cases own
  | claim | abandon | stoppedPosted => cases before
  | _ => cases link

/-- A section of the context leaves handlers to run, on its own thread. -/
theorem context_frame {thread : Nat} {choice : Choice} (stepped : s.context thread choice = some t) :
    s.owner ≠ .absent ∧ s.tasks.any (·.1 == some thread) = false ∧ ∃ system missed heard,
      ∃ calls : List ConnectStep, (∀ next ∈ calls, next.handles = true) ∧ t = { s with
        system, missed, heard, tasks :=
          s.tasks ++ calls.map fun next => (some thread, .check next) } := by
  rw [context] at stepped
  split at stepped
  · cases stepped
  · next enabled =>
    obtain ⟨present, free⟩ := not_or.mp enabled
    split at stepped
    · next sec system _ _ =>
      cases stepped
      refine ⟨present, Bool.not_eq_true _ ▸ free, system, _, _, s.handlers sec,
        fun next called => ?_, rfl⟩
      rcases List.mem_append.mp called with pushed | told
      · split at pushed
        · obtain ⟨_, -, rfl⟩ := List.mem_map.mp pushed
          rfl
        · cases pushed
      · obtain ⟨⟨op, outcome⟩, -, told⟩ := List.mem_filterMap.mp told
        cases outcome with
        | stopped => cases told
        | value ec =>
          dsimp only at told
          split at told
          · cases told
            rfl
          · cases told
    · cases stepped

end Spec

def owners (s : Connect) : Nat := s.tasks.countP (·.2.owns)

def chains (s : Connect) : Nat := s.tasks.countP fun task => task.1.isNone && task.2.links

structure Refused (s : Connect) : Prop where
  tasks : s.tasks = []
  owner : s.owner = .absent
  stopCallback : s.stopCallback = false
  exits : s.exits = [.stopped]

/-- One claim, one chain of callbacks, and `connection_` where the two of them say. -/
structure Standing (s : Connect) : Prop where
  starting : ∀ task ∈ s.tasks, task.2 = .start →
    s.tasks = [(none, .start)] ∧ s.stopCallback = false ∧ s.exits = [] ∧ s.owner = .absent
  balance : s.owners + s.exits.length = s.completed.toNat
  chain : s.chains ≤ 1
  own : ∀ task ∈ s.tasks, task.1 = none → task.2.foreign = false
  rising : ∀ task ∈ s.tasks, (task.2.climbs || task.2.begins) = true →
    task.1 = none ∧ s.phase ≠ .session
  climbing : ∀ task ∈ s.tasks, task.2.climbs = true → s.owner = .absent ∧ s.completed = false
  begun : ∀ task ∈ s.tasks, task.2.begins = true → s.owner ≠ .absent
  absent : s.owner = .absent → ∀ task ∈ s.tasks, task.1 = none
  forwards : s.phase ≠ .session → ∀ task ∈ s.tasks, task.2.forwards = false
  session : s.phase = .session → s.owner ≠ .absent
  destroyed : s.owner = .destroyed → s.completed = true ∧ ∀ task ∈ s.tasks, task.2.owns = true →
    task.2 = .stoppedPosted
  receiver : s.owner = .receiver → s.exits ≠ []
  posted : ∀ task ∈ s.tasks, task.2 = .stoppedPosted → s.owner = .destroyed
  exits : ∀ e ∈ s.exits, if e.session then s.owner = .receiver else s.owner = .absent ∨
    s.owner = .destroyed
  progress : s.completed = false → 0 < s.chains ∨ s.phase = .session
  registered : s.stopCallback = false → s.completed = true ∨ ∃ task ∈ s.tasks, task.2.registers = true
  stop : s.stopRequested = true → s.completed = true ∨ s.stopLatch = true ∨ ∃ task ∈ s.tasks,
    task.2.asks = true

namespace Standing

variable {s t : Connect}

theorem initial (useTls : Bool) : ({ useTls } : Connect).Standing where
  starting _ member _ := ⟨rfl, rfl, rfl, rfl⟩
  balance := rfl
  chain := Nat.le_refl _
  own task member _ := by rw [List.mem_singleton.mp member]; rfl
  rising task member _ := by rw [List.mem_singleton.mp member]; exact ⟨rfl, nofun⟩
  climbing _ _ _ := ⟨rfl, rfl⟩
  begun task member begins := by rw [List.mem_singleton.mp member] at begins; cases begins
  absent _ task member := by rw [List.mem_singleton.mp member]
  forwards _ task member := by rw [List.mem_singleton.mp member]; rfl
  session session := by cases session
  destroyed gone := by cases gone
  receiver gone := by cases gone
  posted task member posts := by rw [List.mem_singleton.mp member] at posts; cases posts
  exits e member := by cases member
  progress _ := .inl Nat.one_pos
  registered _ := .inr ⟨_, List.mem_cons_self, rfl⟩
  stop requested := by cases requested

theorem claimed (standing : s.Standing) {task : ConnectTask} (member : task ∈ s.tasks)
    (owns : task.2.owns = true) :
    s.completed = true ∧ s.exits = [] ∧ s.owners = 1 := by
  have some : 0 < s.owners := List.countP_pos_iff.mpr ⟨task, member, owns⟩
  have balance := standing.balance
  have bound : s.completed.toNat ≤ 1 := Bool.toNat_le _
  refine ⟨?_, List.length_eq_zero_iff.mp (by omega), by omega⟩
  cases taken : s.completed with
  | true => rfl
  | false =>
    rw [taken] at balance
    simp only [Bool.toNat_false] at balance
    omega

theorem unclaimed (standing : s.Standing) (free : s.completed = false) :
    s.owners = 0 ∧ s.exits = [] := by
  have balance := standing.balance
  rw [free] at balance
  simp only [Bool.toNat_false] at balance
  exact ⟨by omega, List.length_eq_zero_iff.mp (by omega)⟩

theorem context (standing : s.Standing) {thread : Nat} {choice : Choice}
    (stepped : s.context thread choice = some t) :
    t.Standing := by
  obtain ⟨present, -, system, missed, heard, calls, called, rfl⟩ := context_frame stepped
  have old {property : ConnectTask → Prop} (before : ∀ task ∈ s.tasks, property task)
      (new : ∀ next : ConnectStep, next.handles = true → property (some thread, .check next)) :
      ∀ task ∈ s.tasks ++ calls.map fun next => ((some thread, .check next) : ConnectTask),
      property task := by
    intro task member
    rcases List.mem_append.mp member with known | member
    · exact before task known
    · obtain ⟨next, inside, rfl⟩ := List.mem_map.mp member
      exact new next (called next inside)
  have same (counts : ConnectTask → Bool) (apart : ∀ next, counts (some thread, .check next) = false) :
      (s.tasks ++ calls.map fun next => ((some thread, .check next) : ConnectTask)).countP counts =
        s.tasks.countP counts := by
    rw [List.countP_append, Nat.add_eq_left, List.countP_eq_zero]
    intro task member
    obtain ⟨next, -, rfl⟩ := List.mem_map.mp member
    simp [apart]
  have kept {property : ConnectTask → Prop} (held : ∃ task ∈ s.tasks, property task) :
      ∃ task ∈ s.tasks ++ calls.map fun next => ((some thread, .check next) : ConnectTask),
      property task :=
    held.imp fun task both => ⟨List.mem_append_left _ both.1, both.2⟩
  have owners : (s.tasks ++ calls.map fun next =>
    ((some thread, .check next) : ConnectTask)).countP (·.2.owns) =
      s.owners := same _ fun _ => rfl
  have chains : (s.tasks ++ calls.map fun next => ((some thread, .check next) : ConnectTask)).countP
      (fun task => task.1.isNone && task.2.links) = s.chains := same _ fun _ => rfl
  refine ⟨?_, ?_, ?_, ?_, ?_, ?_, ?_, fun gone => absurd gone present, fun before => ?_,
    standing.session, fun gone => ?_, standing.receiver, ?_, standing.exits, fun free => ?_,
    fun off => ?_, fun asked => ?_⟩
  · exact old (fun task member starts =>
      absurd (standing.starting task member starts).2.2.2 present) fun _ _ => nofun
  · exact (congrArg (· + _) owners).trans standing.balance
  · exact (Nat.le_of_eq chains).trans standing.chain
  · exact old standing.own fun _ _ => nofun
  · exact old standing.rising
      fun next handles => by simp [ConnectWork.climbs, ConnectWork.begins, handles]
  · exact old standing.climbing fun next handles => by simp [ConnectWork.climbs, handles]
  · exact old standing.begun fun _ _ => nofun
  · exact old (standing.forwards before) fun _ _ => rfl
  · exact ⟨(standing.destroyed gone).1, old (standing.destroyed gone).2 fun _ _ => nofun⟩
  · exact old standing.posted fun _ _ => nofun
  · exact (standing.progress free).imp_left fun links => Nat.lt_of_lt_of_eq links chains.symm
  · exact (standing.registered off).imp_right kept
  · exact (standing.stop asked).imp_right (.imp_right kept)

theorem requestStop (standing : s.Standing) : Standing { s with
    stopRequested := true, tasks :=
      if s.stopCallback then s.tasks ++ [(none, .forward)] else s.tasks } := by
  split
  case isFalse off =>
    refine { standing with stop := fun _ => ?_ }
    rcases standing.registered (Bool.not_eq_true _ ▸ off) with taken | ⟨task, member, registers⟩
    · exact .inl taken
    · refine .inr (.inr ⟨task, member, ?_⟩)
      revert registers
      cases task.2 <;> simp [ConnectWork.registers, ConnectWork.asks]
  case isTrue armed =>
    have old {property : ConnectTask → Prop} (before : ∀ task ∈ s.tasks, property task)
        (new : property (none, .forward)) : ∀ task ∈ s.tasks ++ [(none, .forward)], property task := by
      intro task member
      rcases List.mem_append.mp member with known | member
      · exact before task known
      · exact List.mem_singleton.mp member ▸ new
    have owners : (s.tasks ++ [((none, .forward) : ConnectTask)]).countP (·.2.owns) = s.owners := by
      simp [ConnectWork.owns, owners]
    have chains : (s.tasks ++ [((none, .forward) : ConnectTask)]).countP
        (fun task => task.1.isNone && task.2.links) = s.chains := by
      simp [ConnectWork.links, ConnectWork.climbs, ConnectWork.begins, chains]
    refine ⟨?_, ?_, ?_, ?_, ?_, ?_, ?_, fun gone => ?_, fun before => ?_, standing.session,
      fun gone => ?_, standing.receiver, ?_, standing.exits, fun free => ?_, fun off => ?_, fun _ => ?_⟩
    · refine old (fun task member starts => ?_) nofun
      cases armed.symm.trans (standing.starting task member starts).2.1
    · exact (congrArg (· + _) owners).trans standing.balance
    · exact (Nat.le_of_eq chains).trans standing.chain
    · exact old standing.own fun _ => rfl
    · exact old standing.rising nofun
    · exact old standing.climbing nofun
    · exact old standing.begun nofun
    · exact old (standing.absent gone) rfl
    · exact old (standing.forwards before) rfl
    · exact ⟨(standing.destroyed gone).1, old (standing.destroyed gone).2 nofun⟩
    · exact old standing.posted nofun
    · exact (standing.progress free).imp_left fun links => Nat.lt_of_lt_of_eq links chains.symm
    · cases armed.symm.trans off
    · exact .inr (.inr ⟨_, List.mem_append_right _ List.mem_cons_self, rfl⟩)

section Task

variable {u : Connect} {k : Nat} {thread : Option Nat} {work : ConnectWork} {next : List ConnectWork}

theorem exchange {property : ConnectTask → Prop} (before : ∀ task ∈ s.tasks, property task)
    (new : ∀ after ∈ next, property (thread, after)) :
    ∀ task ∈ s.tasks.eraseIdx k ++ next.map (thread, ·), property task := by
  intro task member
  rcases Automaton.mem_exchange member with known | member
  · exact before task known
  · obtain ⟨after, left, rfl⟩ := List.mem_map.mp member
    exact new after left

theorem survives (found : s.tasks[k]? = some (thread, work)) {property : ConnectTask → Prop}
    (held : ∃ task ∈ s.tasks, property task)
    (new : property (thread, work) → ∃ after ∈ next, property (thread, after)) :
    ∃ task ∈ s.tasks.eraseIdx k ++ next.map (thread, ·), property task := by
  obtain ⟨task, member, holds⟩ := held
  obtain ⟨inside, same⟩ := List.getElem?_eq_some_iff.mp found
  rcases List.mem_cons.mp ((List.getElem_cons_eraseIdx_perm inside).symm.subset member) with here | rest
  · obtain ⟨after, left, holds⟩ := new (same ▸ here ▸ holds)
    exact ⟨_, List.mem_append_right _ (List.mem_map_of_mem left), holds⟩
  · exact ⟨task, List.mem_append_left _ rest, holds⟩

theorem owners_exchange (standing : s.Standing) (found : s.tasks[k]? = some (thread, work))
    (runs : s.Runs work u next)
    (started : work = .start → s.stopRequested = false) :
    (s.tasks.eraseIdx k ++ next.map (thread, ·)).countP (·.2.owns) + u.exits.length =
    u.completed.toNat := by
  have moved := Automaton.countP_exchange found (next.map (thread, ·)) (·.2.owns)
  have next_owns : (next.map ((thread, ·) : ConnectWork → ConnectTask)).countP (·.2.owns) =
      next.countP (·.owns) := by
    rw [List.countP_map]
    rfl
  have before := standing.balance
  rw [next_owns] at moved
  have ledger : next.countP (·.owns) + u.exits.length + s.completed.toNat =
      (if work.owns then 1 else 0) + s.exits.length + u.completed.toNat := by
    by_cases first : work = .start
    · have unasked := started first
      subst first
      cases runs with
      | refused asked => cases asked.symm.trans unasked
      | started => simp [ConnectWork.owns]
      | phaseStopped _ place => rcases place with same | same | same <;> cases same
      | lost _ _ place => rcases place with same | ⟨_, same⟩ | same <;> cases same
    · exact runs.balance first
  unfold owners at before
  dsimp only at moved
  omega

/-- The links of the chain before and after a step. -/
theorem chains_exchange (standing : s.Standing) (found : s.tasks[k]? = some (thread, work))
    (runs : s.Runs work u next) :
    (s.tasks.eraseIdx k ++ next.map (thread, ·)).countP (fun task =>
    task.1.isNone && task.2.links) ≤ 1 ∧
    (0 < s.chains → 0 < (s.tasks.eraseIdx k ++ next.map (thread, ·)).countP (fun task =>
    task.1.isNone && task.2.links) ∨ thread = none ∧ work.links = true ∧
    next.countP (·.links) = 0) := by
  have moved := Automaton.countP_exchange found (next.map (thread, ·)) fun task =>
    task.1.isNone && task.2.links
  have next_links : (next.map ((thread, ·) : ConnectWork → ConnectTask)).countP (fun task =>
    task.1.isNone && task.2.links) =
      if thread.isNone then next.countP (·.links) else 0 := by
    rw [List.countP_map]
    cases thread with
    | none => rfl
    | some i => simp [Function.comp_def]
  have chain := standing.chain
  unfold chains at chain ⊢
  rw [next_links] at moved
  cases thread with
  | some i =>
    simp only [Option.isNone_some, Bool.false_and, Bool.false_eq_true, if_false, Nat.add_zero] at moved
    exact ⟨moved ▸ chain, fun positive => .inl (moved ▸ positive)⟩
  | none =>
    have own := standing.own _ (List.mem_of_getElem? found) rfl
    have links := runs.links own
    simp only [Option.isNone_none, Bool.true_and, if_true] at moved
    cases link : work.links with
    | false =>
      simp only [link, Bool.false_eq_true, if_false, Nat.add_zero] at moved links
      refine ⟨by omega, fun positive => .inl (by omega)⟩
    | true =>
      simp only [link, if_true] at moved links
      refine ⟨by omega, fun positive => ?_⟩
      by_cases ended : next.countP (·.links) = 0
      · exact .inr ⟨rfl, rfl, ended⟩
      · exact .inl (by omega)

theorem rises_links {after : ConnectWork} (rises : (after.climbs || after.begins) = true) :
    after.links = true := by
  revert rises
  cases after <;> simp [ConnectWork.links, ConnectWork.climbs, ConnectWork.begins]

theorem alone (standing : s.Standing) (found : s.tasks[k]? = some (thread, work))
    (chained : thread = none)
    {task : ConnectTask} (member : task ∈ s.tasks.eraseIdx k) (outside : task.1 = none)
    (link : task.2.links = true) :
    work.links = false := by
  obtain ⟨inside, same⟩ := List.getElem?_eq_some_iff.mp found
  by_contra linked
  have before := standing.chain
  have split :=
    (List.getElem_cons_eraseIdx_perm inside).countP_eq fun task => task.1.isNone && task.2.links
  have other : 0 < (s.tasks.eraseIdx k).countP fun task => task.1.isNone && task.2.links :=
    List.countP_pos_iff.mpr ⟨task, member, by simp [outside, link]⟩
  rw [same, List.countP_cons, if_pos (by simp [chained, Bool.not_eq_false _ ▸ linked])] at split
  unfold chains at before
  omega

theorem sole (standing : s.Standing) (found : s.tasks[k]? = some (thread, work))
    (owns : work.owns = true) :
    ∀ task ∈ s.tasks.eraseIdx k, task.2.owns = false := by
  obtain ⟨inside, same⟩ := List.getElem?_eq_some_iff.mp found
  intro task rest
  by_contra other
  have one := (standing.claimed (List.mem_of_getElem? found) owns).2.2
  have split := (List.getElem_cons_eraseIdx_perm inside).countP_eq (·.2.owns)
  have left : 0 < (s.tasks.eraseIdx k).countP (·.2.owns) :=
    List.countP_pos_iff.mpr ⟨task, rest, Bool.not_eq_false _ ▸ other⟩
  rw [same, List.countP_cons, if_pos owns] at split
  unfold owners at one
  omega

theorem phase_kept (standing : s.Standing) (found : s.tasks[k]? = some (thread, work))
    (runs : s.Runs work u next) :
    s.phase ≠ .session ∨ u.phase = .session := by
  rcases runs.phase with ⟨-, session⟩ | ⟨climbs, -⟩ | kept
  · exact .inr session
  · exact .inl (standing.rising _ (List.mem_of_getElem? found) (by simp [climbs])).2
  · rw [kept]
    exact ne_or_eq _ _

theorem owner_kept (runs : s.Runs work u next) (present : s.owner ≠ .absent) : u.owner ≠ .absent := by
  intro gone
  rcases runs.owner with ⟨-, now⟩ | ⟨-, now⟩ | ⟨-, -, now⟩ | ⟨now, -⟩
  · cases now.symm.trans gone
  · cases now.symm.trans gone
  · cases now.symm.trans gone
  · exact present (now.symm.trans gone)

theorem rising_kept (standing : s.Standing) (found : s.tasks[k]? = some (thread, work))
    (runs : s.Runs work u next) :
    ∀ task ∈ s.tasks.eraseIdx k ++ next.map (thread, ·), (task.2.climbs || task.2.begins) = true →
      task.1 = none ∧ u.phase ≠ .session := by
  have here := List.mem_of_getElem? found
  intro task member rises
  rcases List.mem_append.mp member with rest | new
  · obtain ⟨outside, before⟩ := standing.rising task (List.mem_of_mem_eraseIdx rest) rises
    refine ⟨outside, ?_⟩
    rcases runs.phase with ⟨publish, -⟩ | ⟨-, early⟩ | now
    · subst publish
      cases standing.alone found (standing.rising _ here rfl).1 rest outside (rises_links rises)
    · exact early
    · rwa [now]
  · obtain ⟨after, left, rfl⟩ := List.mem_map.mp new
    have risen : (work.climbs || work.begins) = true := by
      rcases Bool.or_eq_true_iff.mp rises with climbs | begins
      · simp [((runs.rises left).2.1 climbs).1]
      · rcases (runs.rises left).2.2.1 begins with begins | rfl
        · simp [begins]
        · rfl
    obtain ⟨outside, before⟩ := standing.rising _ here risen
    refine ⟨outside, ?_⟩
    rcases runs.phase with ⟨publish, -⟩ | ⟨-, early⟩ | now
    · subst publish
      rw [runs.publish_eq.2] at left
      cases left
    · exact early
    · rwa [now]

theorem climbing_kept (standing : s.Standing) (found : s.tasks[k]? = some (thread, work))
    (runs : s.Runs work u next) :
    ∀ task ∈ s.tasks.eraseIdx k ++ next.map (thread, ·), task.2.climbs = true →
      u.owner = .absent ∧ u.completed = false := by
  have here := List.mem_of_getElem? found
  intro task member climbs
  rcases List.mem_append.mp member with rest | new
  · have known := List.mem_of_mem_eraseIdx rest
    obtain ⟨gone, free⟩ := standing.climbing task known climbs
    obtain ⟨outside, before⟩ := standing.rising task known (by simp [climbs])
    have chained := standing.absent gone _ here
    have link := standing.alone found chained rest outside (rises_links (by simp [climbs]))
    obtain ⟨owner, completed⟩ :=
      runs.idle link (standing.own _ here chained) (standing.forwards before _ here)
    exact ⟨owner.trans gone, completed.trans free⟩
  · obtain ⟨after, left, rfl⟩ := List.mem_map.mp new
    obtain ⟨climbed, owner, completed⟩ := (runs.rises left).2.1 climbs
    obtain ⟨gone, free⟩ := standing.climbing _ here climbed
    exact ⟨owner.trans gone, completed.trans free⟩

theorem begun_kept (standing : s.Standing) (found : s.tasks[k]? = some (thread, work))
    (runs : s.Runs work u next) :
    ∀ task ∈ s.tasks.eraseIdx k ++ next.map (thread, ·), task.2.begins = true → u.owner ≠ .absent := by
  have here := List.mem_of_getElem? found
  refine exchange (fun task member begins =>
    owner_kept runs (standing.begun task member begins)) fun after left begins => ?_
  rcases (runs.rises left).2.2.1 begins with begun | rfl
  · exact owner_kept runs (standing.begun _ here begun)
  · rcases runs.owner with ⟨-, now⟩ | ⟨same, -⟩ | ⟨owns, -⟩ | ⟨-, other, -⟩
    · rw [now]
      nofun
    · cases same
    · cases owns
    · exact absurd rfl other

theorem destroyed_kept (standing : s.Standing) (found : s.tasks[k]? = some (thread, work))
    (runs : s.Runs work u next) :
    u.owner = .destroyed → u.completed = true ∧
      ∀ task ∈ s.tasks.eraseIdx k ++ next.map (thread, ·), task.2.owns = true →
      task.2 = .stoppedPosted := by
  have here := List.mem_of_getElem? found
  intro gone
  rcases runs.owner with ⟨-, now⟩ | ⟨-, now⟩ | ⟨owns, -⟩ | ⟨now, -⟩
  · cases now.symm.trans gone
  · cases now.symm.trans gone
  · refine ⟨runs.completed (standing.claimed here owns).1, fun task member owned => ?_⟩
    rcases List.mem_append.mp member with rest | new
    · cases (standing.sole found owns task rest).symm.trans owned
    · obtain ⟨after, left, rfl⟩ := List.mem_map.mp new
      rcases (runs.rises left).2.2.2.2.2.2 owned with free | ⟨-, posts⟩
      · cases free.symm.trans (standing.claimed here owns).1
      · exact posts
  · obtain ⟨taken, posted⟩ := standing.destroyed (now.symm.trans gone)
    refine ⟨runs.completed taken, exchange posted fun after left owned => ?_⟩
    rcases (runs.rises left).2.2.2.2.2.2 owned with free | ⟨-, posts⟩
    · cases free.symm.trans taken
    · exact posts

theorem posted_kept (standing : s.Standing) (found : s.tasks[k]? = some (thread, work))
    (runs : s.Runs work u next) :
    ∀ task ∈ s.tasks.eraseIdx k ++ next.map (thread, ·), task.2 = .stoppedPosted →
    u.owner = .destroyed := by
  have here := List.mem_of_getElem? found
  intro task member posts
  rcases List.mem_append.mp member with rest | new
  · have known := List.mem_of_mem_eraseIdx rest
    have gone := standing.posted task known posts
    have other : work.owns = false := by
      by_contra owns
      have fresh := standing.sole found (Bool.not_eq_false _ ▸ owns) task rest
      rw [posts] at fresh
      cases fresh
    rcases runs.owner with ⟨emplace, -⟩ | ⟨delivers, -⟩ | ⟨owns, -⟩ | ⟨now, -⟩
    · subst emplace
      cases gone.symm.trans (standing.climbing _ here rfl).1
    · subst delivers
      cases other
    · cases other.symm.trans owns
    · exact now.trans gone
  · obtain ⟨after, left, rfl⟩ := List.mem_map.mp new
    have abandons := (runs.rises left).2.2.2.2.2.1 posts
    subst abandons
    obtain ⟨-, none, -⟩ := standing.claimed here rfl
    have session : s.phase = .session := by
      by_contra early
      cases standing.forwards early _ here
    rcases runs.owner with ⟨emplace, -⟩ | ⟨delivers, -⟩ | ⟨-, -, now⟩ | ⟨now, -⟩
    · cases emplace
    · cases delivers
    · exact now
    · have abandoned : u.owner = if s.owner = .operation then .destroyed else s.owner := by
        cases runs with
        | abandon => rw [resetConnection_eq]
        | phaseStopped _ place => rcases place with same | same | same <;> cases same
        | lost _ _ place => rcases place with same | ⟨_, same⟩ | same <;> cases same
      show u.owner = _
      cases owner : s.owner with
      | absent => exact absurd owner (standing.session session)
      | receiver => exact absurd none (standing.receiver owner)
      | operation | destroyed => simpa [owner] using abandoned

theorem exits_kept (standing : s.Standing) (found : s.tasks[k]? = some (thread, work))
    (runs : s.Runs work u next)
    (started : work = .start → s.stopRequested = false) :
    ∀ e ∈ u.exits, if e.session then u.owner = .receiver else u.owner = .absent ∨
    u.owner = .destroyed := by
  have here := List.mem_of_getElem? found
  intro e member
  have old : e ∈ s.exits → if e.session then u.owner = .receiver else u.owner = .absent ∨
      u.owner = .destroyed := by
    intro member
    have before := standing.exits e member
    have some := List.ne_nil_of_mem member
    rcases runs.owner with ⟨emplace, -⟩ | ⟨delivers, -⟩ | ⟨owns, -⟩ | ⟨now, -⟩
    · subst emplace
      exact absurd (standing.unclaimed (standing.climbing _ here rfl).2).2 some
    · subst delivers
      exact absurd (standing.claimed here rfl).2.1 some
    · exact absurd (standing.claimed here owns).2.1 some
    · rwa [now]
  rcases runs.exits with now | ⟨last, now, why⟩
  · exact old (now ▸ member)
  · rw [now] at member
    rcases List.mem_append.mp member with member | latest
    · exact old member
    · rw [List.mem_singleton.mp latest]
      rcases why with ⟨first, asked, -⟩ | ⟨delivers, session⟩ | ⟨posts,
        rfl⟩ | ⟨⟨outcome, delivers, other⟩, ends⟩
      · cases asked.symm.trans (started first)
      · subst delivers
        rw [if_pos session]
        rcases runs.owner with ⟨emplace, -⟩ | ⟨-, now⟩ | ⟨-, -, gone⟩ | ⟨-, -, apart⟩
        · cases emplace
        · exact now
        · rw [runs.deliver_eq.1] at gone
          cases gone
        · exact absurd rfl apart
      · have gone := standing.posted _ here posts
        subst posts
        refine .inr ?_
        rcases runs.owner with ⟨emplace, -⟩ | ⟨delivers, -⟩ | ⟨-, -, now⟩ | ⟨now, -⟩
        · cases emplace
        · cases delivers
        · exact now
        · exact now.trans gone
      · rw [if_neg (by simp [ends])]
        have none := (standing.claimed here (by rw [delivers]; rfl)).2.1
        subst delivers
        have dropped : u.owner = if s.owner = .operation then .destroyed else s.owner := by
          rw [runs.deliver_eq.1]
          rcases outcome with (_ | ec) | _
          · exact absurd rfl other
          · rw [finish, resetConnection_eq]
          · rw [finish, resetConnection_eq]
        show u.owner = _ ∨ u.owner = _
        cases owner : s.owner with
        | receiver => exact absurd none (standing.receiver owner)
        | absent | operation | destroyed => simp [owner, dropped]

theorem task (standing : s.Standing) (found : s.tasks[k]? = some (thread, work))
    (runs : s.Runs work u next)
    (started : work = .start → s.stopRequested = false) :
    Standing { u with tasks := s.tasks.eraseIdx k ++ next.map (thread, ·) } := by
  have here := List.mem_of_getElem? found
  obtain ⟨inside, -⟩ := List.getElem?_eq_some_iff.mp found
  obtain ⟨chain, progress⟩ := standing.chains_exchange found runs
  obtain ⟨latch, callback, asks⟩ := runs.stops started
  have phase := standing.phase_kept found runs
  have kept := owner_kept runs
  have balance := standing.owners_exchange found runs started
  have rising := standing.rising_kept found runs
  have climbing := standing.climbing_kept found runs
  have begun := standing.begun_kept found runs
  have destroyed := standing.destroyed_kept found runs
  have posted := standing.posted_kept found runs
  have exits := standing.exits_kept found runs started
  refine ⟨?starting, balance, chain, ?own, rising, climbing, begun, ?absent, ?forwards,
    ?session, destroyed, ?receiver, posted, exits, ?progress, ?registered, ?stop⟩
  case starting =>
    intro task member starts
    rcases List.mem_append.mp member with rest | new
    · have only := (standing.starting task (List.mem_of_mem_eraseIdx rest) starts).1
      obtain rfl : k = 0 := by simpa [only] using inside
      simp [only] at rest
    · obtain ⟨after, left, rfl⟩ := List.mem_map.mp new
      exact absurd starts (runs.rises left).1
  case own =>
    refine exchange standing.own fun after left outside => ?_
    by_contra foreign
    have own := standing.own _ here outside
    cases own.symm.trans ((runs.rises left).2.2.2.1 (Bool.not_eq_false _ ▸ foreign))
  case absent =>
    intro gone
    have before : s.owner = .absent := by
      by_contra present
      exact kept present gone
    exact exchange (standing.absent before) fun _ _ => standing.absent before (thread, work) here
  case forwards =>
    intro early
    have before : s.phase ≠ .session := phase.resolve_right early
    refine exchange (standing.forwards before) fun after left => ?_
    by_contra forwards
    rcases (runs.rises left).2.2.2.2.1 (Bool.not_eq_false _ ▸ forwards) with forwarded | session
    · cases (standing.forwards before _ here).symm.trans forwarded
    · exact before session
  case session =>
    intro session
    rcases runs.phase with ⟨rfl, -⟩ | ⟨-, early⟩ | now
    · exact kept (standing.begun _ here rfl)
    · exact absurd session early
    · exact kept (standing.session (now.symm.trans session))
  case receiver =>
    intro handed
    rcases runs.owner with ⟨-, now⟩ | ⟨delivers, -⟩ | ⟨-, -, now⟩ | ⟨now, -⟩
    · cases now.symm.trans handed
    · subst delivers
      rw [runs.deliver_eq.1]
      simp [finish]
    · cases now.symm.trans handed
    · have some := standing.receiver (now.symm.trans handed)
      rcases runs.exits with now | ⟨e, now, -⟩ <;> simp [now, some]
  case progress =>
    intro free
    have before : s.completed = false := by
      by_contra taken
      cases (runs.completed (Bool.not_eq_false _ ▸ taken)).symm.trans free
    rcases standing.progress before with positive | session
    · rcases progress positive with more | ⟨chained, link, ended⟩
      · exact .inl more
      · have own := standing.own _ here chained
        exact .inr (runs.progress own link started free ended fun owns =>
          (standing.claimed here owns).1)
    · exact .inr (phase.resolve_left (not_not_intro session))
  case registered =>
    intro off
    rcases callback off with owns | ⟨before, registers⟩
    · exact .inl (runs.completed (standing.claimed here owns).1)
    · exact (standing.registered before).imp runs.completed fun held => survives found held registers
  case stop =>
    intro asked
    have asked : s.stopRequested = true := runs.frame.2.1 ▸ asked
    rcases standing.stop asked with taken | latched | held
    · exact .inl (runs.completed taken)
    · exact .inr (.inl (latch latched))
    · by_cases asking : work.asks = true
      · rcases asks asked asking with taken | latched | ⟨after, left, still⟩
        · exact .inl taken
        · exact .inr (.inl latched)
        · exact .inr (.inr ⟨_, List.mem_append_right _ (List.mem_map_of_mem left), still⟩)
      · exact .inr (.inr (survives found held fun holds => absurd holds asking))

end Task

end Standing

theorem Refused.step {s t : Connect} {action : ConnectAction} (refused : s.Refused)
    (stepped : s.step action = some t) :
    t.Refused := by
  rcases step_runs stepped with ⟨_, _, moved⟩ | ⟨k, _, _, _, _, found, -⟩ | rfl | ⟨-, rfl⟩
  · exact absurd refused.owner (context_frame moved).1
  · simp [refused.tasks] at found
  · exact refused
  · exact ⟨by simp [refused.tasks, refused.stopCallback], refused.owner, refused.stopCallback,
      refused.exits⟩

theorem Standing.step {s t : Connect} {action : ConnectAction} (standing : s.Standing)
    (stepped : s.step action = some t) : t.Standing ∨ t.Refused := by
  rcases step_runs stepped with ⟨_, _, moved⟩ | ⟨k, thread, work, u, next, found, runs,
    rfl⟩ | rfl | ⟨-, rfl⟩
  · exact .inl (standing.context moved)
  · by_cases refuses : work = .start ∧ s.stopRequested = true
    · obtain ⟨rfl, asked⟩ := refuses
      obtain ⟨only, stopCallback, none, owner⟩ := standing.starting _ (List.mem_of_getElem? found) rfl
      have first : k = 0 := by
        obtain ⟨inside, -⟩ := List.getElem?_eq_some_iff.mp found
        simpa [only] using inside
      cases runs with
      | refused => exact .inr ⟨by simp [only, first], owner, stopCallback, by simp [none]⟩
      | started unasked => cases asked.symm.trans unasked
      | phaseStopped _ place => rcases place with same | same | same <;> cases same
      | lost _ _ place => rcases place with same | ⟨_, same⟩ | same <;> cases same
    · refine .inl (standing.task found runs fun first => ?_)
      by_contra asked
      exact refuses ⟨first, Bool.not_eq_false _ ▸ asked⟩
  · exact .inl standing
  · exact .inl standing.requestStop

theorem Standing.of_reachable {useTls : Bool} {s : Connect} (run : (asyncConnect useTls).Reachable s) :
    s.Standing ∨ s.Refused := by
  refine run.invariant (fun s => s.Standing ∨ s.Refused) (.inl (.initial useTls)) ?_
  intro _ _ _ _ before _ stepped
  exact before.elim (·.step stepped) fun refused => .inr (refused.step stepped)

end Connect

end Bkmail
