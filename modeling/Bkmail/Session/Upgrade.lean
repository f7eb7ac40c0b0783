import Bkmail.Session.StartTls

namespace Bkmail

namespace TlsChain

def waits : TlsChain → Bool
  | starttls | replied _ => true
  | _ => false

def runs : TlsChain → Bool
  | claimed _ | entering | arming | handshaking | shaken _ | leaving | probing | capability
  | probed _ => true
  | _ => false

theorem waits_runs {chain : TlsChain} (waits : chain.waits = true) :
    chain.runs = false ∧ chain ≠ .unsubmitted := by
  cases chain with
  | starttls | replied => exact ⟨rfl, nofun⟩
  | _ => cases waits

end TlsChain

namespace StartTls

def submitted (s : StartTls) : Prop := s.start ≠ .entry ∧ s.start ≠ .submit

/-- Who has the completion: `start`, which may refuse it, nobody yet, the stop forwarder, or the
    chain of handlers. -/
inductive Custody (s : StartTls) : Prop where
  | starting : ¬s.submitted → s.chain = .unsubmitted → s.completed = false → s.forwarder = .waiting →
      s.stopCallback = false → s.stopPosted = false → s.deliveries = [] → Custody s
  | refused : s.start = .returned → s.chain = .unsubmitted → s.forwarder = .waiting →
      s.stopCallback = false → s.stopPosted = false → s.deliveries.length = 1 → Custody s
  | unclaimed : s.submitted → s.completed = false →
      s.chain.waits = true ∨ s.chain = .withdrawn ∧ s.forwarder = .claim →
      s.forwarder ≠ .post → s.stopPosted = false → s.deliveries = [] → Custody s
  | forwarded : s.submitted → s.completed = true → s.chain.runs = false → s.chain ≠ .unsubmitted →
      s.forwarder = .post ∧ s.stopPosted = false ∧ s.deliveries = [] ∨
        s.forwarder = .finished ∧ s.deliveries.length + s.stopPosted.toNat = 1 → Custody s
  | claimed : s.submitted → s.completed = true → s.chain.runs = true → s.forwarder ≠ .post →
      s.stopPosted = false → s.deliveries = [] → Custody s
  | delivered : s.submitted → s.completed = true → s.chain = .ended → s.forwarder ≠ .post →
      s.stopPosted = false → s.deliveries.length = 1 → Custody s

/-- The forwarder runs once, for a stop that was requested, and not before `start` has registered
    it. -/
structure Registered (s : StartTls) : Prop where
  forwarder : s.forwarder ≠ .waiting → s.start = .returned ∧ s.stopRequested = true
  stopCallback : s.stopCallback = true → s.start = .returned

theorem honour_custody {s : StartTls} (submitted : s.submitted) (completed : s.completed = true)
    (idle : s.forwarder ≠ .post) (quiet : s.stopPosted = false) (none : s.deliveries = [])
    {onward : TlsChain}
    (runs : onward.runs = true) (ec : Option ErrorCode) : (s.honour ec onward).Custody := by
  rw [honour]
  split
  · exact .delivered submitted completed rfl idle quiet (by simp [deliver, none])
  · split
    · exact .delivered submitted completed rfl idle quiet (by simp [deliver, none])
    · exact .claimed submitted completed runs idle quiet none

theorem chain_custody {s t : StartTls} {ec : Option ErrorCode} {tag : Tag}
    (stepped : s.chainStep ec tag = some t)
    (custody : s.Custody) : t.Custody := by
  cases custody with
  | starting _ unsubmitted | refused _ unsubmitted =>
    rw [chainStep, unsubmitted] at stepped
    cases stepped
  | unclaimed submitted free place idle quiet none =>
    rcases place with waits | ⟨withdrawn, -⟩
    · cases chain : s.chain with
      | starttls =>
        rw [chainStep, chain] at stepped
        cases stepped
        exact .unclaimed submitted free (.inl rfl) idle quiet none
      | replied code =>
        rw [chainStep, chain] at stepped
        dsimp only at stepped
        rw [if_neg (by simp [free])] at stepped
        cases stepped
        exact .claimed submitted rfl rfl idle quiet none
      | _ => simp [chain, TlsChain.waits] at waits
    · rw [chainStep, withdrawn] at stepped
      cases stepped
  | forwarded submitted taken stays known owner =>
    cases chain : s.chain with
    | starttls =>
      rw [chainStep, chain] at stepped
      cases stepped
      exact .forwarded submitted taken rfl nofun owner
    | replied code =>
      rw [chainStep, chain] at stepped
      dsimp only at stepped
      rw [if_pos taken] at stepped
      cases stepped
      exact .forwarded submitted taken rfl nofun owner
    | unsubmitted | withdrawn | ended =>
      rw [chainStep, chain] at stepped
      cases stepped
    | _ => simp [chain, TlsChain.runs] at stays
  | claimed submitted taken runs idle quiet none =>
    cases chain : s.chain with
    | claimed code | shaken code =>
      rw [chainStep, chain] at stepped
      cases stepped
      exact honour_custody submitted taken idle quiet none rfl _
    | probed code =>
      rw [chainStep, chain] at stepped
      cases stepped
      exact .delivered submitted taken rfl idle quiet (by simp [deliver, none])
    | entering | arming | handshaking | leaving | probing | capability =>
      rw [chainStep, chain] at stepped
      cases stepped
      exact .claimed submitted taken rfl idle quiet none
    | _ => simp [chain, TlsChain.runs] at runs
  | delivered _ _ ended =>
    rw [chainStep, ended] at stepped
    cases stepped

theorem start_custody {s t : StartTls} {tag : Tag} (stepped : s.startStep tag = some t)
    (registered : s.Registered)
    (custody : s.Custody) : t.Custody := by
  have waiting (running : s.start ≠ .returned) : s.forwarder = .waiting := by
    by_contra runs
    exact running (registered.forwarder runs).1
  rw [startStep] at stepped
  split at stepped
  · next entry =>
    cases custody with
    | starting _ unsubmitted free idle off quiet none =>
      cases stepped
      split
      · exact .refused rfl unsubmitted idle rfl quiet (by simp [deliver, none])
      · exact .starting (by simp [submitted]) unsubmitted free idle off quiet none
    | refused returned => cases entry.symm.trans returned
    | unclaimed inside | forwarded inside | claimed inside | delivered inside =>
        exact absurd entry inside.1
  · next submit =>
    cases custody with
    | starting _ _ free idle _ quiet none =>
      cases stepped
      exact .unclaimed (by simp [submitted]) free (.inl rfl) (by simp [idle]) quiet none
    | refused returned => cases submit.symm.trans returned
    | unclaimed inside | forwarded inside | claimed inside | delivered inside =>
        exact absurd submit inside.2
  · next storeTag =>
    cases stepped
    cases custody with
    | starting outside => exact absurd ⟨by simp [storeTag], by simp [storeTag]⟩ outside
    | refused returned => cases storeTag.symm.trans returned
    | unclaimed _ free place idle quiet none =>
        exact .unclaimed (by simp [submitted]) free place idle quiet none
    | forwarded _ taken stays known owner =>
        exact .forwarded (by simp [submitted]) taken stays known owner
    | claimed _ taken runs idle quiet none =>
        exact .claimed (by simp [submitted]) taken runs idle quiet none
    | delivered _ taken ended idle quiet one =>
        exact .delivered (by simp [submitted]) taken ended idle quiet one
  · next registerStop =>
    have idle := waiting (by simp [registerStop])
    have forwarder : (if s.stopRequested then TlsForwarder.latch else s.forwarder) ≠ .post := by
      split <;> simp [idle]
    cases stepped
    cases custody with
    | starting outside => exact absurd ⟨by simp [registerStop], by simp [registerStop]⟩ outside
    | refused returned => cases registerStop.symm.trans returned
    | unclaimed _ free place _ quiet none =>
      refine .unclaimed (by simp [submitted]) free (.inl (place.resolve_right ?_)) forwarder quiet none
      rintro ⟨-, claim⟩
      cases idle.symm.trans claim
    | forwarded _ taken stays known owner => simp [idle] at owner
    | claimed _ taken runs _ quiet none =>
        exact .claimed (by simp [submitted]) taken runs forwarder quiet none
    | delivered _ taken ended _ quiet one =>
        exact .delivered (by simp [submitted]) taken ended forwarder quiet one
  · cases stepped

def Spares (s : StartTls) (action : TlsAction) : Prop :=
  action = .forwarder true → s.forwarder = .cancel → s.chain = .capability → s.tag ≠ s.capabilityTag

instance (s : StartTls) (action : TlsAction) : Decidable (s.Spares action) :=
  inferInstanceAs (Decidable (action = .forwarder true → s.forwarder = .cancel → s.chain = .capability →
    s.tag ≠ s.capabilityTag))

theorem forwarder_custody {s t : StartTls} {opened : Bool} (stepped : s.forwarderStep opened = some t)
    (spares : s.Spares (.forwarder opened)) (custody : s.Custody) : t.Custody := by
  cases custody with
  | starting _ _ _ idle | refused _ _ idle =>
    rw [forwarderStep, idle] at stepped
    cases stepped
  | unclaimed submitted free place idle quiet none =>
    cases at_ : s.forwarder with
    | latch =>
      rw [forwarderStep, at_] at stepped
      cases stepped
      exact .unclaimed submitted free (.inl (place.resolve_right (by simp [at_]))) nofun quiet none
    | phase =>
      rw [forwarderStep, at_] at stepped
      cases stepped
      refine .unclaimed submitted free (.inl (place.resolve_right (by simp [at_]))) ?_ quiet none
      dsimp only
      split <;> nofun
    | cancel =>
      rw [forwarderStep, at_] at stepped
      cases stepped
      have waits := place.resolve_right (by simp [at_])
      refine .unclaimed submitted free ?_ nofun quiet none
      dsimp only
      split
      · exact .inr ⟨rfl, rfl⟩
      · exact .inl waits
    | claim =>
      rw [forwarderStep, at_] at stepped
      dsimp only at stepped
      rw [if_neg (by simp [free])] at stepped
      cases stepped
      obtain ⟨stays, known⟩ : s.chain.runs = false ∧ s.chain ≠ .unsubmitted := by
        rcases place with waits | ⟨withdrawn, -⟩
        · exact TlsChain.waits_runs waits
        · rw [withdrawn]
          exact ⟨rfl, nofun⟩
      exact .forwarded submitted rfl stays known (.inl ⟨rfl, quiet, none⟩)
    | post => exact absurd at_ idle
    | waiting | finished =>
      rw [forwarderStep, at_] at stepped
      cases stepped
  | forwarded submitted taken stays known owner =>
    rw [forwarderStep] at stepped
    rcases owner with ⟨post, quiet, none⟩ | ⟨finished, -⟩
    · rw [post] at stepped
      cases stepped
      exact .forwarded submitted taken stays known (.inr ⟨rfl, by simp [none]⟩)
    · rw [finished] at stepped
      cases stepped
  | claimed submitted taken runs idle quiet none =>
    cases at_ : s.forwarder with
    | latch =>
      rw [forwarderStep, at_] at stepped
      cases stepped
      exact .claimed submitted taken runs nofun quiet none
    | phase =>
      rw [forwarderStep, at_] at stepped
      cases stepped
      refine .claimed submitted taken runs ?_ quiet none
      dsimp only
      split <;> nofun
    | cancel =>
      have kept : (opened && s.cancellable) = false := by
        by_contra found
        rw [Bool.not_eq_false, Bool.and_eq_true] at found
        obtain ⟨rfl, found⟩ := found
        rcases Bool.or_eq_true_iff.mp found with starttls | capability
        · rw [beq_iff_eq.mp (Bool.and_eq_true_iff.mp starttls).1] at runs
          cases runs
        · obtain ⟨capability, same⟩ := Bool.and_eq_true_iff.mp capability
          exact spares rfl at_ (beq_iff_eq.mp capability) (beq_iff_eq.mp same)
      rw [forwarderStep, at_] at stepped
      simp only [kept] at stepped
      cases stepped
      exact .claimed submitted taken runs nofun quiet none
    | claim =>
      rw [forwarderStep, at_] at stepped
      dsimp only at stepped
      rw [if_pos taken] at stepped
      cases stepped
      exact .claimed submitted taken runs nofun quiet none
    | post => exact absurd at_ idle
    | waiting | finished =>
      rw [forwarderStep, at_] at stepped
      cases stepped
  | delivered submitted taken ended idle quiet one =>
    cases at_ : s.forwarder with
    | latch =>
      rw [forwarderStep, at_] at stepped
      cases stepped
      exact .delivered submitted taken ended nofun quiet one
    | phase =>
      rw [forwarderStep, at_] at stepped
      cases stepped
      refine .delivered submitted taken ended ?_ quiet one
      dsimp only
      split <;> nofun
    | cancel =>
      have kept : (opened && s.cancellable) = false := by simp [cancellable, ended]
      rw [forwarderStep, at_] at stepped
      simp only [kept] at stepped
      cases stepped
      exact .delivered submitted taken ended nofun quiet one
    | claim =>
      rw [forwarderStep, at_] at stepped
      dsimp only at stepped
      rw [if_pos taken] at stepped
      cases stepped
      exact .delivered submitted taken ended nofun quiet one
    | post => exact absurd at_ idle
    | waiting | finished =>
      rw [forwarderStep, at_] at stepped
      cases stepped

theorem requestStop_custody {s : StartTls} (registered : s.Registered) (fresh : s.stopRequested = false)
    (custody : s.Custody) :
    { s with stopRequested := true, forwarder := if s.stopCallback then .latch
    else s.forwarder }.Custody := by
  have waiting : s.forwarder = .waiting := by
    by_contra runs
    cases fresh.symm.trans (registered.forwarder runs).2
  have forwarder : (if s.stopCallback then TlsForwarder.latch else s.forwarder) ≠ .post := by
    split <;> simp [waiting]
  cases custody with
  | starting outside unsubmitted free _ off quiet none =>
    exact .starting outside unsubmitted free (by simp [off, waiting]) off quiet none
  | refused returned unsubmitted _ off quiet one =>
      exact .refused returned unsubmitted (by simp [off, waiting]) off quiet one
  | unclaimed submitted free place _ quiet none =>
    refine .unclaimed submitted free (.inl (place.resolve_right ?_)) forwarder quiet none
    rintro ⟨-, claim⟩
    cases waiting.symm.trans claim
  | forwarded submitted taken stays known owner => simp [waiting] at owner
  | claimed submitted taken runs _ quiet none =>
      exact .claimed submitted taken runs forwarder quiet none
  | delivered submitted taken ended _ quiet one =>
      exact .delivered submitted taken ended forwarder quiet one

theorem step_custody {s t : StartTls} {action : TlsAction} (stepped : s.step action = some t)
    (spares : s.Spares action)
    (registered : s.Registered) (custody : s.Custody) : t.Custody := by
  cases action with
  | start tag => exact start_custody stepped registered custody
  | chain ec tag => exact chain_custody stepped custody
  | forwarder opened => exact forwarder_custody stepped spares custody
  | storeTag =>
    rw [step] at stepped
    split at stepped
    · cases stepped
      cases custody with
      | starting outside unsubmitted free idle off quiet none =>
          exact .starting outside unsubmitted free idle off quiet none
      | refused returned unsubmitted idle off quiet one =>
          exact .refused returned unsubmitted idle off quiet one
      | unclaimed submitted free place idle quiet none =>
          exact .unclaimed submitted free place idle quiet none
      | forwarded submitted taken stays known owner =>
          exact .forwarded submitted taken stays known owner
      | claimed submitted taken runs idle quiet none =>
          exact .claimed submitted taken runs idle quiet none
      | delivered submitted taken ended idle quiet one =>
          exact .delivered submitted taken ended idle quiet one
    · cases stepped
  | requestStop =>
    rw [step] at stepped
    split at stepped
    · cases stepped
      exact custody
    · next fresh =>
      cases stepped
      exact requestStop_custody registered (Bool.not_eq_true _ ▸ fresh) custody
  | deliverStopped =>
    rw [step] at stepped
    split at stepped
    · next posted =>
      cases stepped
      cases custody with
      | forwarded submitted taken stays known owner =>
        rw [posted] at owner
        obtain ⟨finished, one⟩ := owner.resolve_left (by simp)
        exact .forwarded submitted taken stays known (.inr ⟨finished, by simpa [deliver] using one⟩)
      | starting _ _ _ _ _ quiet | refused _ _ _ _ quiet | unclaimed _ _ _ _ quiet | claimed _ _ _ _ quiet
        | delivered _ _ _ _ quiet => cases posted.symm.trans quiet
    · cases stepped

theorem chain_frame {s t : StartTls} {ec : Option ErrorCode} {tag : Tag}
    (stepped : s.chainStep ec tag = some t) :
    t.start = s.start ∧ t.forwarder = s.forwarder ∧ t.stopRequested = s.stopRequested ∧
      (t.stopCallback = true → s.stopCallback = true) := by
  have honoured (onward : TlsChain) (ec : Option ErrorCode) : (s.honour ec onward).start = s.start ∧
      (s.honour ec onward).forwarder = s.forwarder ∧ (s.honour ec onward).stopRequested =
      s.stopRequested ∧ ((s.honour ec onward).stopCallback = true → s.stopCallback = true) := by
    rw [honour]
    split
    · simp [deliver]
    · split <;> simp [deliver]
  rw [chainStep] at stepped
  split at stepped <;> cases stepped
  case h_2 =>
    split <;> exact ⟨rfl, rfl, rfl, id⟩
  case h_3 | h_7 => exact honoured ..
  case h_11 => exact ⟨rfl, rfl, rfl, nofun⟩
  all_goals exact ⟨rfl, rfl, rfl, id⟩

theorem start_registered {s t : StartTls} {tag : Tag} (stepped : s.startStep tag = some t)
    (registered : s.Registered) : t.Registered := by
  have waiting (running : s.start ≠ .returned) : s.forwarder = .waiting ∧ s.stopCallback = false := by
    refine ⟨?_, Bool.not_eq_true _ ▸ fun on => running (registered.stopCallback on)⟩
    by_contra runs
    exact running (registered.forwarder runs).1
  rw [startStep] at stepped
  split at stepped
  · next entry =>
    obtain ⟨idle, off⟩ := waiting (by simp [entry])
    cases stepped
    split
    · exact ⟨fun runs => absurd idle runs, nofun⟩
    · exact ⟨fun runs => absurd idle runs, fun on => by cases off.symm.trans on⟩
  · next submit =>
    obtain ⟨idle, off⟩ := waiting (by simp [submit])
    cases stepped
    exact ⟨fun runs => absurd idle runs, fun on => by cases off.symm.trans on⟩
  · next storeTag =>
    obtain ⟨idle, off⟩ := waiting (by simp [storeTag])
    cases stepped
    exact ⟨fun runs => absurd idle runs, fun on => by cases off.symm.trans on⟩
  · next registerStop =>
    obtain ⟨idle, -⟩ := waiting (by simp [registerStop])
    cases stepped
    refine ⟨fun runs => ⟨rfl, ?_⟩, fun _ => rfl⟩
    by_contra fresh
    have fresh : s.stopRequested = false := Bool.not_eq_true _ ▸ fresh
    exact runs (by simp [fresh, idle])
  · cases stepped

theorem forwarder_registered {s t : StartTls} {opened : Bool}
    (stepped : s.forwarderStep opened = some t)
    (registered : s.Registered) : t.Registered := by
  have runs : s.forwarder ≠ .waiting := by
    intro waiting
    rw [forwarderStep, waiting] at stepped
    cases stepped
  obtain ⟨returned, requested⟩ := registered.forwarder runs
  have frame : t.start = s.start ∧ t.stopRequested = s.stopRequested := by
    rw [forwarderStep] at stepped
    split at stepped <;> cases stepped
    case h_4 => split <;> exact ⟨rfl, rfl⟩
    all_goals exact ⟨rfl, rfl⟩
  obtain ⟨start, stopRequested⟩ := frame
  exact ⟨fun _ => ⟨start.trans returned, stopRequested.trans requested⟩, fun _ => start.trans returned⟩

theorem step_registered {s t : StartTls} {action : TlsAction} (stepped : s.step action = some t)
    (registered : s.Registered) : t.Registered := by
  cases action with
  | start tag => exact start_registered stepped registered
  | chain ec tag =>
    obtain ⟨start, forwarder, requested, callback⟩ := chain_frame stepped
    refine ⟨fun runs => ?_, fun on => start.trans (registered.stopCallback (callback on))⟩
    rw [start, requested]
    exact registered.forwarder (forwarder ▸ runs)
  | forwarder opened => exact forwarder_registered stepped registered
  | storeTag =>
    rw [step] at stepped
    split at stepped <;> cases stepped
    exact ⟨registered.forwarder, registered.stopCallback⟩
  | requestStop =>
    rw [step] at stepped
    split at stepped
    · cases stepped
      exact registered
    · cases stepped
      refine ⟨fun runs => ⟨?_, rfl⟩, registered.stopCallback⟩
      dsimp only at runs
      split at runs
      · next on => exact registered.stopCallback on
      · exact (registered.forwarder runs).1
  | deliverStopped =>
    rw [step] at stepped
    split at stepped <;> cases stepped
    exact ⟨registered.forwarder, nofun⟩

/-- Something outside of the operation is going to complete it: a handler that is registered and not
    withdrawn, the handshake, or the posted stopped delivery. -/
def Source (s : StartTls) : Prop :=
  s.chain = .starttls ∨ s.chain = .capability ∨ s.chain = .handshaking ∨ s.stopPosted = true

/-- A thread is inside the operation on its way to such a source or to the completion itself:
    `start` before the submission, a handler, or the forwarder that has withdrawn the STARTTLS or
    claimed the operation. -/
def Underway (s : StartTls) : Prop :=
  s.start = .entry ∨ s.start = .submit ∨ (∃ ec, s.chain = .replied ec) ∨
    s.chain.runs = true ∧ s.chain ≠ .capability ∧ s.chain ≠ .handshaking ∨
    s.forwarder = .claim ∧ s.completed = false ∨ s.forwarder = .post

theorem Custody.once {s : StartTls} (custody : s.Custody) : s.deliveries.length ≤ 1 := by
  cases custody with
  | starting _ _ _ _ _ _ none => simp [none]
  | unclaimed _ _ _ _ _ none | claimed _ _ _ _ _ none => simp [none]
  | refused _ _ _ _ _ one | delivered _ _ _ _ _ one => exact Nat.le_of_eq one
  | forwarded _ _ _ _ owner =>
    rcases owner with ⟨-, -, none⟩ | ⟨-, one⟩
    · simp [none]
    · omega

theorem Custody.pending {s : StartTls} (custody : s.Custody) (undelivered : s.deliveries = []) :
    s.Source ∨ s.Underway := by
  cases custody with
  | starting outside =>
    rw [submitted, not_and_or, not_not, not_not] at outside
    exact .inr (outside.imp_right .inl)
  | refused _ _ _ _ _ one | delivered _ _ _ _ _ one =>
    rw [undelivered] at one
    cases one
  | unclaimed _ free place =>
    rcases place with waits | ⟨-, claim⟩
    · cases chain : s.chain with
      | starttls => exact .inl (.inl chain)
      | replied ec => exact .inr (.inr (.inr (.inl ⟨ec, chain⟩)))
      | _ => simp [chain, TlsChain.waits] at waits
    · exact .inr (.inr (.inr (.inr (.inr (.inl ⟨claim, free⟩)))))
  | forwarded _ _ _ _ owner =>
    rcases owner with ⟨post, -⟩ | ⟨-, one⟩
    · exact .inr (.inr (.inr (.inr (.inr (.inr post)))))
    · refine .inl (.inr (.inr (.inr ?_)))
      cases posted : s.stopPosted with
      | true => rfl
      | false => simp [undelivered, posted] at one
  | claimed _ _ runs =>
    by_cases capability : s.chain = .capability
    · exact .inl (.inr (.inl capability))
    · by_cases handshaking : s.chain = .handshaking
      · exact .inl (.inr (.inr (.inl handshaking)))
      · exact .inr (.inr (.inr (.inr (.inl ⟨runs, capability, handshaking⟩))))

end StartTls

/-- As long as no stop forwarder withdraws the CAPABILITY, the receiver is completed at most once,
    and until then there is always something that will complete it. -/
theorem startTls_keeps_completion {s : StartTls} (run : startTls.Guarded StartTls.Spares s) :
    s.deliveries.length ≤ 1 ∧ (s.deliveries = [] → s.Source ∨ s.Underway) := by
  have custody : s.Custody ∧ s.Registered := by
    refine run.invariant (fun s => s.Custody ∧ s.Registered) ?_ ?_
    · exact ⟨.starting (by simp [StartTls.submitted, startTls]) rfl rfl rfl rfl rfl rfl, nofun, nofun⟩
    · rintro before after action - ⟨custody, registered⟩ spares stepped
      exact ⟨StartTls.step_custody stepped spares registered custody,
        StartTls.step_registered stepped registered⟩
  exact ⟨custody.1.once, custody.1.pending⟩

/-- The upgrade goes through: the STARTTLS reply, the handshake and the CAPABILITY reply. -/
theorem startTls_keeps_upgraded :
    ∃ s : StartTls, s.deliveries = [.value none] ∧ s.deliveries.length ≤ 1 ∧
    (s.deliveries = [] → s.Source ∨ s.Underway) := by
  obtain ⟨s, run, upgraded⟩ := startTls.guarded_of_trace (fun s action => decide (s.Spares action))
    ([TlsAction.start [], .start (ascii "a0001"), .start [], .start []] ++
    List.replicate 9 (TlsAction.chain none (ascii "a0001")) ++
      [TlsAction.storeTag, .chain none [], .chain none []])
    (fun s => decide (s.deliveries = [.value none])) (fun _ _ spares => of_decide_eq_true spares)
    (by decide +kernel)
  exact ⟨s, of_decide_eq_true upgraded, startTls_keeps_completion run⟩

def StartTls.Lost (s : StartTls) : Prop :=
  s.start = .returned ∧ s.chain = .withdrawn ∧ s.forwarder = .finished ∧ s.stopRequested = true ∧
    s.completed = true ∧ s.stopPosted = false ∧ s.deliveries = []

theorem StartTls.Lost.step {s t : StartTls} (lost : s.Lost) {action : TlsAction}
    (stepped : s.step action = some t) :
    t.Lost := by
  obtain ⟨returned, withdrawn, finished, requested, taken, quiet, none⟩ := lost
  cases action with
  | storeTag =>
    rw [StartTls.step] at stepped
    split at stepped <;> cases stepped
    exact ⟨returned, withdrawn, finished, requested, taken, quiet, none⟩
  | requestStop =>
    rw [StartTls.step, if_pos requested] at stepped
    cases stepped
    exact ⟨returned, withdrawn, finished, requested, taken, quiet, none⟩
  | start tag => simp [StartTls.step, startStep, returned] at stepped
  | chain ec tag => simp [StartTls.step, chainStep, withdrawn] at stepped
  | forwarder opened => simp [StartTls.step, forwarderStep, finished] at stepped
  | deliverStopped => simp [StartTls.step, quiet] at stepped

/-- A stop while the CAPABILITY is under way: its handler is withdrawn, the completion stays with
    the chain that waits for it, and the receiver is never completed. -/
theorem startTls_loses_completion : ∃ s : StartTls, startTls.Reachable s ∧ s.deliveries = [] ∧
    ¬s.Source ∧ ¬s.Underway ∧ ∀ later, startTls.Leads s later → later.deliveries = [] := by
  obtain ⟨s, run, here⟩ := startTls.reachable_of_trace
    ([TlsAction.start [], .start (ascii "a0001"), .start [], .start []] ++
    List.replicate 9 (TlsAction.chain none (ascii "a0001")) ++
      [TlsAction.storeTag, .requestStop, .forwarder true, .forwarder true, .forwarder true,
      .forwarder true])
    (fun s => decide (s.start = .returned ∧ s.chain = .withdrawn ∧ s.forwarder = .finished ∧
    s.stopRequested = true ∧ s.completed = true ∧ s.stopPosted = false ∧ s.deliveries = []))
    (by decide +kernel)
  have here := of_decide_eq_true here
  have lost : s.Lost := here
  have ever : ∀ later, startTls.Leads s later → later.Lost := fun later leads =>
    leads.invariant StartTls.Lost lost fun before after action _ lost stepped => lost.step stepped
  obtain ⟨returned, withdrawn, finished, -, taken, quiet, none⟩ := lost
  refine ⟨s, run, none, ?_, ?_, fun later leads => ?_⟩
  · simp [StartTls.Source, withdrawn, quiet]
  · simp [StartTls.Underway, returned, withdrawn, finished, TlsChain.runs]
  · obtain ⟨-, -, -, -, -, -, none⟩ := ever later leads
    exact none

end Bkmail
