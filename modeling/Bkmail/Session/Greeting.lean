import Bkmail.Session.Settling
import Bkmail.Session.Reader

namespace Bkmail

def ConnectWork.handling : ConnectWork → Bool
  | check next | proceed next => next.handles
  | claimStopped | cache _ | complete _ | deliver _ => true
  | _ => false

def ConnectWork.attends : ConnectWork → Bool
  | check (.greeted _) | proceed (.greeted _) | check (.probed none _) | proceed (.probed none _) =>
      true
  | cache _ | complete none | deliver (.value none) => true
  | _ => false

structure System.Called (s t : System) : Prop where
  reached : imapContext.Reachable s → imapContext.Reachable t
  longer : s.threads.length ≤ t.threads.length
  same : ∀ k < s.threads.length, t.threads[k]? = s.threads[k]?

namespace System.Called

variable {s t u : System}

theorem refl (s : System) : s.Called s := ⟨id, Nat.le_refl _, fun _ _ => rfl⟩

theorem trans (first : s.Called t) (second : t.Called u) : s.Called u where
  reached := second.reached ∘ first.reached
  longer := first.longer.trans second.longer
  same k inside := (second.same k (inside.trans_le first.longer)).trans (first.same k inside)

theorem step {c : Call} (stepped : s.step (.call c) = some t) : s.Called t := by
  obtain ⟨longer, same⟩ := call_threads stepped
  have moved : imapContext.step s (.call c) = some t := stepped
  exact ⟨fun reached => reached.next True.intro moved, longer, same⟩

theorem reads (called : s.Called t) {i : Nat} (inside : i < s.threads.length) : t.reads i = s.reads i :=
  reads_congr (called.same i inside)

end System.Called

namespace Connect

/-- The greeting that is kept is the first of these events that is one, and none of them is a
    BYE. -/
structure Sums (s : Connect) (events : List UnsolicitedEvent) : Prop where
  kept : ∀ event ∈ events, greetingKindOf event ≠ .bye
  first : (events.find? (·.isGreeting)).map greetingKindOf = if s.greetingSeen then some s.greeting
    else none
  unseen : s.greetingSeen = false → s.greeting = .ok

/-- What a task of the read pump may rely on: the events before its own have been summed, unless the
    receiver is completed already. -/
def Heeds (s : Connect) : ConnectWork → Prop
  | .check (.greeted event) | .proceed (.greeted event) =>
    s.completed = true ∨ ∃ before, s.heard = before ++ [event] ∧ s.Sums before
  | .check (.probed none _) | .proceed (.probed none _) | .cache _ | .complete none =>
      s.completed = true ∨ s.Sums s.heard
  | .deliver (.value none) => s.Sums s.heard
  | _ => True

variable {s t : Connect} {work : ConnectWork} {next : List ConnectWork}

theorem Sums.snoc {event : UnsolicitedEvent} {before : List UnsolicitedEvent} (sums : s.Sums before)
    (kept : greetingKindOf event ≠ .bye)
    (first : ((before.find? (·.isGreeting)).or ([event].find? (·.isGreeting))).map greetingKindOf =
      if t.greetingSeen then some t.greeting else none)
    (unseen : t.greetingSeen = false → t.greeting = .ok) : t.Sums (before ++ [event]) := by
  refine ⟨fun other member => ?_, by rwa [List.find?_append], unseen⟩
  rcases List.mem_append.mp member with earlier | last
  · exact sums.kept other earlier
  · rwa [List.mem_singleton.mp last]

theorem Sums.congr {events : List UnsolicitedEvent} (sums : s.Sums events)
    (seen : t.greetingSeen = s.greetingSeen)
    (greeting : t.greeting = s.greeting) : t.Sums events :=
  ⟨sums.kept, by rw [seen, greeting, sums.first], by rw [seen, greeting]; exact sums.unseen⟩

theorem Heeds.congr (heeds : s.Heeds work) (seen : t.greetingSeen = s.greetingSeen)
    (greeting : t.greeting = s.greeting)
    (heard : t.heard = s.heard) (taken : s.completed = true → t.completed = true) : t.Heeds work := by
  have again {events : List UnsolicitedEvent} (sums : s.Sums events) : t.Sums events :=
    sums.congr seen greeting
  unfold Heeds at heeds ⊢
  split
  · exact heeds.imp taken fun ⟨before, split, sums⟩ => ⟨before, heard.trans split, again sums⟩
  · exact heeds.imp taken fun ⟨before, split, sums⟩ => ⟨before, heard.trans split, again sums⟩
  · rw [heard]
    exact heeds.imp taken again
  · rw [heard]
    exact heeds.imp taken again
  · rw [heard]
    exact heeds.imp taken again
  · rw [heard]
    exact heeds.imp taken again
  · rw [heard]
    exact again heeds
  · trivial

theorem call_called (s : Connect) (c : Call) : s.system.Called (s.call c).system := by
  rw [call]
  cases stepped : s.system.step (.call c) with
  | none => exact .refl _
  | some system => exact .step stepped

theorem resetConnection_called (s : Connect) : s.system.Called s.resetConnection.system := by
  unfold resetConnection
  split
  · exact s.call_called .abandon
  · exact .refl _

theorem Runs.called (runs : s.Runs work t next) : s.system.Called t.system := by
  cases runs with
  | submit _ _ addr submitted =>
    obtain ⟨system, stepped, same⟩ := Option.map_eq_some_iff.mp submitted
    cases same
    exact (s.call_called .allocateTag).trans (.step stepped)
  | flush => exact s.call_called .flush
  | deliver outcome =>
    rcases outcome with (_ | ec) | _
    · exact .refl _
    · exact s.resetConnection_called
    · exact s.resetConnection_called
  | abandon => exact s.resetConnection_called
  | _ => exact .refl _

theorem Runs.greets (runs : s.Runs work t next) (other : ∀ event, work ≠ .proceed (.greeted event)) :
    t.greetingSeen = s.greetingSeen ∧ t.greeting = s.greeting := by
  cases runs with
  | greeted event => exact absurd rfl (other event)
  | submit _ _ addr submitted =>
    rw [submit_frame submitted]
    exact ⟨rfl, rfl⟩
  | deliver outcome =>
    obtain ⟨_, _, _, same⟩ := s.finish_frame outcome
    rw [same]
    exact ⟨rfl, rfl⟩
  | abandon =>
    rw [resetConnection_eq]
    exact ⟨rfl, rfl⟩
  | _ => exact ⟨rfl, rfl⟩

theorem Runs.handling (runs : s.Runs work t next) (handling : work.handling = true) :
    next.length ≤ 1 ∧ ∀ after ∈ next, after.handling = true := by
  cases runs with
  | latched | claimStopped | lost | deliver | greeted | ignored | failed | probed | cache | complete =>
    simp [ConnectWork.handling]
  | passed step => exact ⟨Nat.le_refl _, fun after member => List.mem_singleton.mp member ▸ handling⟩
  | phaseStopped _ place => rcases place with rfl | rfl | rfl <;> cases handling
  | toSession _ place => rcases place with rfl | rfl <;> cases handling
  | _ => cases handling

theorem Runs.attends (runs : s.Runs work t next) {after : ConnectWork} (member : after ∈ next)
    (attends : after.attends = true) : work.attends = true := by
  cases runs with
  | passed step =>
    rw [List.mem_singleton.mp member] at attends
    cases step with
    | probed ec => cases ec <;> exact attends
    | _ => exact attends
  | complete ec =>
    rw [List.mem_singleton.mp member] at attends
    cases ec <;> exact attends
  | started => rcases List.mem_pair.mp member with rfl | rfl <;> cases attends
  | forward _ place =>
    rw [List.mem_singleton.mp member, place] at attends
    split at attends <;> cases attends
  | probed | cache => rfl
  | refused | registered | greeted | ignored | lost | deliver | publish | latch | stoppedPosted =>
      cases member
  | _ =>
    rw [List.mem_singleton.mp member] at attends
    cases attends

/-- Once a task of the read pump has ended, all it was called with has been summed. -/
theorem Runs.heeds (runs : s.Runs work t next) (handling : work.handling = true) (heeds : s.Heeds work)
    (claimed : work.owns = true → s.completed = true) :
    (∀ after ∈ next, t.Heeds after) ∧ (next = [] → t.completed = true ∨ t.Sums t.heard) := by
  cases runs with
  | latched => simp [Heeds]
  | passed step =>
    refine ⟨fun after member => ?_, nofun⟩
    rw [List.mem_singleton.mp member]
    cases step with
    | probed ec =>
      cases ec with
      | none => exact heeds
      | some ec => trivial
    | greeted => exact heeds
    | _ => cases handling
  | failed => simp [Heeds]
  | greeted event kept unseen greets =>
    refine ⟨nofun, fun _ => heeds.imp_right fun ⟨before, split, sums⟩ => ?_⟩
    rw [split]
    refine sums.snoc kept ?_ nofun
    have none : before.find? (·.isGreeting) = none := by simpa [unseen] using sums.first
    simp [none, greets]
  | ignored event kept later =>
    refine ⟨nofun, fun _ => heeds.imp_right fun ⟨before, split, sums⟩ => ?_⟩
    rw [split]
    refine sums.snoc kept ?_ sums.unseen
    rcases later with seen | other
    · obtain ⟨first, found, -⟩ := Option.map_eq_some_iff.mp (sums.first.trans (if_pos seen))
      rw [← sums.first, found, Option.some_or]
    · rw [List.find?_singleton, other]
      simpa using sums.first
  | probed =>
    refine ⟨fun after member => ?_, nofun⟩
    rw [List.mem_singleton.mp member]
    exact heeds
  | cache =>
    refine ⟨fun after member => ?_, nofun⟩
    rw [List.mem_singleton.mp member]
    exact Or.imp_right (fun sums => sums.congr rfl rfl) heeds
  | lost _ taken => exact ⟨nofun, fun _ => .inl taken⟩
  | claimStopped => simp [Heeds]
  | complete ec free =>
    refine ⟨fun after member => ?_, nofun⟩
    rw [List.mem_singleton.mp member]
    cases ec with
    | some ec => trivial
    | none => exact (heeds.resolve_left (by simp [free])).congr rfl rfl
  | deliver outcome => exact ⟨nofun, fun _ => .inl ((Runs.deliver outcome).completed (claimed rfl))⟩
  | phaseStopped _ place => rcases place with rfl | rfl | rfl <;> cases handling
  | toSession _ place => rcases place with rfl | rfl <;> cases handling
  | _ => cases handling

end Connect

/-- A session says what its greeting said, and no session comes after a BYE. -/
def ConnectExit.Verdict (heard : List UnsolicitedEvent) (e : ConnectExit) : Prop :=
  (∀ event ∈ heard, greetingKindOf event ≠ .bye) ∧
    ((∃ capabilities, e = .authenticated capabilities) ↔
      (heard.find? (·.isGreeting)).map greetingKindOf = some .preauth)

namespace Connect

/-- One task for each thread, and those that the read pump called on the thread that it is on. -/
structure Attending (s : Connect) : Prop where
  reached : imapContext.Reachable s.system
  placed : ∀ task ∈ s.tasks, ∀ i, task.1 = some i → i < s.system.threads.length ∧ task.2.handling = true
  apart : ∀ i, s.tasks.countP (·.1 == some i) ≤ 1
  reading : ∀ task ∈ s.tasks, task.2.attends = true → ∃ i, task.1 = some i ∧ s.system.reads i = true
  during : ∀ task ∈ s.tasks, ∀ i, task.1 = some i → s.system.reads i = true → s.Heeds task.2
  between : (∀ task ∈ s.tasks, ∀ i, task.1 = some i → s.system.reads i = false) →
    s.completed = true ∨ s.Sums s.heard
  verdict : ∀ e ∈ s.exits, e.session = true → e.Verdict s.heard

variable {s t : Connect} {work : ConnectWork} {next : List ConnectWork}

theorem Sums.verdict (sums : s.Sums s.heard) : ConnectExit.Verdict s.heard
    (if s.greeting = .preauth then .authenticated s.capabilities
    else .notAuthenticated s.capabilities) := by
  refine ⟨sums.kept, ?_⟩
  rw [sums.first]
  by_cases preauth : s.greeting = .preauth
  · have seen : s.greetingSeen = true := by
      by_contra unseen
      cases preauth.symm.trans (sums.unseen (Bool.not_eq_true _ ▸ unseen))
    simp [preauth, seen]
  · rw [if_neg preauth]
    refine ⟨nofun, fun same => ?_⟩
    split at same
    · exact absurd (Option.some.inj same) preauth
    · cases same

namespace Attending

theorem verdicts (attending : s.Attending) (runs : s.Runs work t next)
    (heeds : work = .deliver (.value none) → s.Sums s.heard) :
    ∀ e ∈ t.exits, e.session = true → e.Verdict t.heard := by
  intro e member session
  rw [runs.frame.2.2.1]
  rcases runs.exits with same | ⟨last, now, why⟩
  · exact attending.verdict e (same ▸ member) session
  · rw [now] at member
    rcases List.mem_append.mp member with earlier | latest
    · exact attending.verdict e earlier session
    · rw [List.mem_singleton.mp latest] at session ⊢
      rcases why with ⟨-, -, rfl⟩ | ⟨rfl, -⟩ | ⟨-, rfl⟩ | ⟨-, other⟩
      · cases session
      · rw [runs.deliver_eq.1] at now
        rw [← List.singleton_inj.mp (List.append_cancel_left now)]
        exact (heeds rfl).verdict
      · cases session
      · cases session.symm.trans other

theorem alone (attending : s.Attending) {k : Nat} {i : Nat} (found : s.tasks[k]? = some (some i, work))
    (reads : s.system.reads i = true) : ∀ task ∈ s.tasks.eraseIdx k, ∀ j, task.1 = some j →
    s.system.reads j = false := by
  intro task member j place
  by_contra other
  cases System.reads_unique attending.reached reads (Bool.not_eq_false _ ▸ other)
  have count := Automaton.countP_exchange found [] (·.1 == some i)
  have bound := attending.apart i
  have positive : 0 < (s.tasks.eraseIdx k).countP (·.1 == some i) :=
    List.countP_pos_iff.mpr ⟨task, member, by simp [place]⟩
  simp only [List.append_nil, beq_self_eq_true, if_true, List.countP_nil] at count
  omega

theorem task (attending : s.Attending) {k : Nat} {thread : Option Nat}
    (found : s.tasks[k]? = some (thread, work))
    (runs : s.Runs work t next) (claimed : work.owns = true → s.completed = true) :
    ({ t with tasks := s.tasks.eraseIdx k ++ next.map (thread, ·) } : Connect).Attending := by
  have here := List.mem_of_getElem? found
  have called := runs.called
  have heard : t.heard = s.heard := runs.frame.2.2.1
  have old {task : ConnectTask} (member : task ∈ s.tasks.eraseIdx k) : task ∈ s.tasks :=
    List.mem_of_mem_eraseIdx member
  have same {task : ConnectTask} (member : task ∈ s.tasks) {i : Nat} (place : task.1 = some i) :
      t.system.reads i = s.system.reads i := called.reads (attending.placed task member i place).1
  have left {task : ConnectTask} (member : task ∈ next.map ((thread, ·) : ConnectWork → ConnectTask)) :
      task.1 = thread ∧ task.2 ∈ next := by
    obtain ⟨after, inside, rfl⟩ := List.mem_map.mp member
    exact ⟨rfl, inside⟩
  have placed : ∀ task ∈ s.tasks.eraseIdx k ++ next.map (thread, ·), ∀ i, task.1 = some i →
      i < t.system.threads.length ∧ task.2.handling = true := by
    intro task member i place
    rcases List.mem_append.mp member with known | new
    · exact (attending.placed task (old known) i place).imp_left (·.trans_le called.longer)
    · obtain ⟨rfl, inside⟩ := left new
      obtain ⟨bound, handling⟩ := attending.placed _ here i place
      exact ⟨bound.trans_le called.longer, (runs.handling handling).2 _ inside⟩
  have apart : ∀ i, (s.tasks.eraseIdx k ++ next.map ((thread, ·) : ConnectWork → ConnectTask)).countP
      (·.1 == some i) ≤ 1 := by
    intro i
    have count := Automaton.countP_exchange found (next.map ((thread, ·) : ConnectWork →
      ConnectTask)) (·.1 == some i)
    have bound := attending.apart i
    rw [List.countP_map] at count
    by_cases place : thread = some i
    · have few := (runs.handling (attending.placed _ here i place).2).1
      have most :=
        List.countP_le_length (p := (fun task : ConnectTask => task.1 == some i) ∘ (thread,
        ·)) (l := next)
      simp only [place, beq_self_eq_true, if_true] at count most ⊢
      omega
    · have none : next.countP ((fun task : ConnectTask => task.1 == some i) ∘ (thread, ·)) = 0 := by
        simp [Function.comp_def, place]
      rw [none] at count
      omega
  have reading : ∀ task ∈ s.tasks.eraseIdx k ++ next.map (thread, ·), task.2.attends = true →
      ∃ i, task.1 = some i ∧ t.system.reads i = true := by
    intro task member attends
    rcases List.mem_append.mp member with known | new
    · obtain ⟨i, place, reads⟩ := attending.reading task (old known) attends
      exact ⟨i, place, (same (old known) place).trans reads⟩
    · obtain ⟨rfl, inside⟩ := left new
      obtain ⟨i, place, reads⟩ := attending.reading _ here (runs.attends inside attends)
      exact ⟨i, place, (same here place).trans reads⟩
  by_cases reader : ∃ i, thread = some i ∧ s.system.reads i = true
  · obtain ⟨i, rfl, reads⟩ := reader
    have handling := (attending.placed _ here i rfl).2
    have heeds := attending.during _ here i rfl reads
    obtain ⟨follows, ends⟩ := runs.heeds handling heeds claimed
    have others := attending.alone found reads
    have verdict := attending.verdicts runs fun delivers => by rw [delivers] at heeds; exact heeds
    refine ⟨called.reached attending.reached, placed, apart, reading, fun task member j place now =>
      ?_, fun quiet => ?_, verdict⟩
    · rcases List.mem_append.mp member with known | new
      · rw [same (old known) place, others task known j place] at now
        cases now
      · exact (follows _ (left new).2).congr rfl rfl rfl id
    · cases next with
      | nil => exact (ends rfl).imp_right (·.congr rfl rfl)
      | cons after rest =>
        have now := quiet (some i, after) (by simp) i rfl
        rw [show t.system.reads i = _ from same here rfl, reads] at now
        cases now
  · have silent : work.attends = false := by
      by_contra attends
      obtain ⟨i, place, reads⟩ := attending.reading _ here (Bool.not_eq_false _ ▸ attends)
      exact reader ⟨i, place, reads⟩
    obtain ⟨seen, greeting⟩ := runs.greets fun event is => by cases (is ▸ silent :)
    have verdict := attending.verdicts runs fun is => by cases (is ▸ silent :)
    refine ⟨called.reached attending.reached, placed, apart, reading, fun task member j place now =>
      ?_, fun quiet => ?_, verdict⟩
    · rcases List.mem_append.mp member with known | new
      · rw [same (old known) place] at now
        exact (attending.during task (old known) j place now).congr seen greeting heard runs.completed
      · obtain ⟨rfl, -⟩ := left new
        exact absurd ⟨j, place, (same here place).symm.trans now⟩ reader
    · have before := attending.between fun task member i place => by
        rw [← same member place]
        rcases Automaton.mem_stays found member with rfl | known
        · rw [same member place]
          exact Bool.not_eq_true _ ▸ fun reads => reader ⟨i, place, reads⟩
        · exact quiet task (List.mem_append_left _ known) i place
      show t.completed = true ∨ Sums _ t.heard
      rw [heard]
      exact before.imp runs.completed fun sums => sums.congr seen greeting

end Attending

/-- The handler that a section calls, if it calls one. -/
theorem handlers_cases (s : Connect) (sec : Section) :
    s.handlers sec = [] ∧ (s.listening = true → sec.pushes = []) ∨
      (∃ event, s.handlers sec = [.greeted event] ∧ s.listening = true ∧ sec.pushes = [event]) ∨
      ∃ ec capabilities, s.handlers sec = [.probed ec capabilities] ∧ sec.pushes = [] ∧
        (ec = none → ∃ op r choice, sec = .work (.onTagged op r) choice) := by
  have silent : sec.pushes = [] → sec.outcomes s.system.core = [] → s.handlers sec = [] := by
    intro pushes outcomes
    simp [handlers, pushes, outcomes]
  cases sec with
  | call c => exact .inl ⟨silent rfl rfl, fun _ => rfl⟩
  | work work choice =>
    cases work with
    | readLoop texts =>
      have few : (Section.work (.readLoop texts) choice).pushes = [] ∨
          ∃ event, (Section.work (.readLoop texts) choice).pushes = [event] := by
        unfold Section.pushes
        split
        · split
          · next r _ => cases ContextCore.makeUnsolicitedEvent r <;> simp
          · exact .inl rfl
        · exact .inl rfl
      rcases few with none | ⟨event, one⟩
      · exact .inl ⟨silent none rfl, fun _ => none⟩
      · cases listening : s.listening with
        | false => exact .inl ⟨by simp [handlers, listening, Section.outcomes], fun heard => by cases heard⟩
        | true => exact .inr (.inl ⟨event, by simp [handlers, listening, one, Section.outcomes], rfl, one⟩)
    | fail op ec =>
      by_cases told : (s.system.core.cell op).finished = false ∧ s.probe = some op
      · refine .inr (.inr ⟨some ec,
          (Section.work (.fail op ec) choice).capabilities s.system.core, ?_, rfl,
          fun none => by cases none⟩)
        simp [handlers, Section.pushes, Section.outcomes, told]
      · refine .inl ⟨?_, fun _ => rfl⟩
        cases ended : (s.system.core.cell op).finished with
        | true => exact silent rfl (by simp [Section.outcomes, ended])
        | false => simpa [handlers, Section.pushes, Section.outcomes, ended] using told
    | onTagged op r =>
      by_cases told : (s.system.core.cell op).finished = false ∧ (s.system.core.cell op).stopped =
        false ∧ s.probe = some op
      · refine .inr (.inr ⟨mapStatusToEc r.status,
          (Section.work (.onTagged op r) choice).capabilities s.system.core, ?_,
          rfl, fun _ => ⟨op, r, choice, rfl⟩⟩)
        simp [handlers, Section.pushes, Section.outcomes, told]
      · refine .inl ⟨?_, fun _ => rfl⟩
        cases ended : (s.system.core.cell op).finished with
        | true => exact silent rfl (by simp [Section.outcomes, ended])
        | false =>
          cases stopped : (s.system.core.cell op).stopped with
          | true => cases path : (s.system.core.cell op).callbackPath <;>
              simp [handlers, Section.pushes, Section.outcomes, ended, stopped, path]
          | false => simpa [handlers, Section.pushes, Section.outcomes, ended, stopped] using told
    | stopScheduled op =>
      refine .inl ⟨?_, fun _ => rfl⟩
      cases ended : (s.system.core.cell op).finished <;> cases path :
        (s.system.core.cell op).callbackPath <;>
        simp [handlers, Section.pushes, Section.outcomes, ended, path]
    | _ => exact .inl ⟨silent rfl rfl, fun _ => rfl⟩

theorem context_section {thread : Nat} {choice : Choice} (stepped : s.context thread choice = some t) :
    s.owner ≠ .absent ∧ s.tasks.any (·.1 == some thread) = false ∧ ∃ work rest o system,
      s.system.threads[thread]? = some (work :: rest) ∧
      Section.Runs s.system.core (.work work choice) o ∧
      s.system.step (.resume thread choice) = some system ∧
      system.threads = s.system.threads.set thread (o.left ++ rest) ++
        o.armed.map ([·]) ∧
      t = { s with
        system
        tasks := s.tasks ++ (s.handlers (.work work choice)).map fun next => (some thread, .check next)
        missed := if s.listening || s.completed then s.missed
          else s.missed ++ (Section.work work choice).pushes
        heard := if s.listening && s.exits.isEmpty then s.heard ++ (Section.work work choice).pushes
          else s.heard } := by
  rw [context] at stepped
  split at stepped
  · cases stepped
  · next enabled =>
    obtain ⟨present, free⟩ := not_or.mp enabled
    split at stepped
    · next sec system selected moved =>
      obtain ⟨work, rest, o, found, runs, here, rfl⟩ := System.resume_threads moved
      cases here.symm.trans selected
      cases stepped
      exact ⟨present, Bool.not_eq_true _ ▸ free, work, rest, o, _, found, runs, moved, rfl, rfl⟩
    · cases stepped

namespace Attending

theorem context (attending : s.Attending) (ended : s.exits ≠ [] → s.completed = true) {thread : Nat}
    {choice : Choice}
    (stepped : s.context thread choice = some t) : t.Attending := by
  obtain ⟨-, free, work, rest, o, system, found, runs, moved, threads, rfl⟩ := context_section stepped
  obtain ⟨longer, others⟩ := System.resume_others moved
  have absent : ∀ task ∈ s.tasks, task.1 ≠ some thread := by
    intro task member place
    have found := List.any_eq_false.mp free task member
    simp [place] at found
  have same {task : ConnectTask} (member : task ∈ s.tasks) {i : Nat} (place : task.1 = some i) :
      system.reads i = s.system.reads i :=
    System.reads_congr (others i (attending.placed task member i place).1 fun here =>
      absent task member (here ▸ place))
  have inside : thread < s.system.threads.length := (List.getElem?_eq_some_iff.mp found).1
  have reached : imapContext.Reachable system := by
    have moved : imapContext.step s.system (.resume thread choice) = some system := moved
    exact attending.reached.next True.intro moved
  have quiet (reads : s.system.reads thread = true) :
      ∀ task ∈ s.tasks, ∀ i, task.1 = some i → s.system.reads i = false := by
    intro task member i place
    by_contra other
    cases System.reads_unique attending.reached reads (Bool.not_eq_false _ ▸ other)
    exact absent task member place
  generalize now : (if s.listening && s.exits.isEmpty then s.heard ++
    (Section.work work choice).pushes else s.heard) = heard
  generalize calls : s.handlers (.work work choice) = handlers
  have facts : handlers.length ≤ 1 ∧ (∀ next ∈ handlers, next.handles = true) ∧
      (∀ next ∈ handlers, (ConnectWork.check next).attends = true →
        s.system.reads thread = true ∧ system.reads thread = true) ∧
      ((heard = s.heard ∧ ∀ event, .greeted event ∈ handlers → s.completed = true) ∨
        ∃ event, handlers = [.greeted event] ∧ heard = s.heard ++ [event] ∧ s.exits = []) := by
    have reads (earlier : (work :: rest).any Work.reads = true)
      (later : (o.left ++ rest).any Work.reads = true) :
        s.system.reads thread = true ∧ system.reads thread = true := by
      have after : system.threads[thread]? = some (o.left ++ rest) := by
        rw [threads, List.getElem?_append_left (by simpa using inside), List.getElem?_set_self inside]
      exact ⟨by rw [System.reads, found]; exact earlier, by rw [System.reads, after]; exact later⟩
    rcases s.handlers_cases (.work work choice) with ⟨none, pushless⟩ | ⟨event, called,
      listening, pushes⟩ |
      ⟨ec, capabilities, called, pushes, why⟩
    · cases calls.symm.trans none
      refine ⟨Nat.zero_le _, fun next member => (by cases member), fun next member => (by cases member),
        .inl ⟨?_, fun event member => (by cases member)⟩⟩
      rw [← now]
      split
      · next listens =>
        rw [pushless (Bool.and_eq_true_iff.mp listens).1, List.append_nil]
      · rfl
    · cases calls.symm.trans called
      obtain ⟨head, left⟩ := runs.pushes_reads (by simp [pushes])
      refine ⟨Nat.le_refl _, fun next member => List.mem_singleton.mp member ▸ rfl, fun _ _ _ =>
        reads (by simp [head]) (by simp [left]), ?_⟩
      rw [← now, listening, pushes]
      cases exits : s.exits with
      | nil => exact .inr ⟨event, rfl, rfl, rfl⟩
      | cons e exits => exact .inl ⟨rfl, fun _ _ => ended (by simp [exits])⟩
    · cases calls.symm.trans called
      refine ⟨Nat.le_refl _, fun next member => List.mem_singleton.mp member ▸ rfl,
        fun next member attends => ?_,
        .inl ⟨?_, fun event member => by cases List.mem_singleton.mp member⟩⟩
      · rw [List.mem_singleton.mp member] at attends
        cases ec with
        | some ec => cases attends
        | none =>
          obtain ⟨op, r, choice, same⟩ := why rfl
          cases same
          have escorted := System.escorts attending.reached _ (List.mem_of_getElem? found)
          have behind : rest.any Work.reads = true := by simpa [Automaton.escorted, Work.replies] using
            (Bool.and_eq_true_iff.mp escorted).1
          exact reads (by simp [behind]) (by simp [behind])
      · rw [← now, pushes]
        split
        · exact List.append_nil _
        · rfl
  obtain ⟨few, handles, attends, heard⟩ := facts
  refine ⟨reached, fun task member i place => ?_, fun i => ?_, fun task member calls => ?_,
    fun task member i place reads => ?_, fun none => ?_, fun e member session => ?_⟩
  · rcases List.mem_append.mp member with known | new
    · exact (attending.placed task known i place).imp_left (·.trans_le longer)
    · obtain ⟨next, called, rfl⟩ := List.mem_map.mp new
      cases place
      exact ⟨inside.trans_le longer, handles next called⟩
  · rw [List.countP_append]
    by_cases here : i = thread
    · have none : s.tasks.countP (·.1 == some i) = 0 :=
        List.countP_eq_zero.mpr fun task member => by simpa [here] using absent task member
      have most : (handlers.map fun next =>
          ((some thread, .check next) : ConnectTask)).countP (·.1 == some i) ≤ 1 := by
        refine List.countP_le_length.trans ?_
        rwa [List.length_map]
      exact Nat.add_le_add none.le most
    · refine Nat.add_le_add (attending.apart i)
        (Nat.le_of_eq (List.countP_eq_zero.mpr fun task member => ?_))
      obtain ⟨next, -, rfl⟩ := List.mem_map.mp member
      simpa using Ne.symm here
  · rcases List.mem_append.mp member with known | new
    · obtain ⟨i, place, reads⟩ := attending.reading task known calls
      exact ⟨i, place, (same known place).trans reads⟩
    · obtain ⟨next, called, rfl⟩ := List.mem_map.mp new
      exact ⟨thread, rfl, (attends next called calls).2⟩
  · rcases List.mem_append.mp member with known | new
    · rw [same known place] at reads
      rcases heard with ⟨kept, -⟩ | ⟨event, only, -⟩
      · exact (attending.during task known i place reads).congr rfl rfl kept id
      · have here := (attends (.greeted event) (by simp [only]) rfl).1
        cases (quiet here task known i place).symm.trans reads
    · obtain ⟨next, called, rfl⟩ := List.mem_map.mp new
      cases next with
      | greeted event =>
        rcases heard with ⟨-, taken⟩ | ⟨other, only, grown, -⟩
        · exact .inl (taken event called)
        · cases List.mem_singleton.mp (only ▸ called)
          have before := attending.between (quiet (attends _ called rfl).1)
          exact before.imp_right fun sums => ⟨s.heard, grown, sums.congr rfl rfl⟩
      | probed ec capabilities =>
        cases ec with
        | some ec => trivial
        | none =>
          rcases heard with ⟨kept, -⟩ | ⟨other, only, -⟩
          · have before := attending.between (quiet (attends _ called rfl).1)
            show s.completed = true ∨ Sums _ heard
            rw [kept]
            exact before.imp_right fun sums => sums.congr rfl rfl
          · cases List.mem_singleton.mp (only ▸ called)
      | _ => trivial
  · rcases heard with ⟨kept, -⟩ | ⟨event, only, -⟩
    · have before := attending.between fun task member i place =>
        (same member place).symm.trans (none task (List.mem_append_left _ member) i place)
      show s.completed = true ∨ Sums _ heard
      rw [kept]
      exact before.imp_right fun sums => sums.congr rfl rfl
    · have reads := none (some thread, .check (.greeted event)) (by simp [only]) thread rfl
      cases reads.symm.trans (attends (.greeted event) (by simp [only]) rfl).2
  · rcases heard with ⟨kept, -⟩ | ⟨-, -, -, empty⟩
    · show e.Verdict heard
      rw [kept]
      exact attending.verdict e member session
    · rw [show s.exits = [] from empty] at member
      cases member

theorem initial (useTls : Bool) : ({ useTls } : Connect).Attending where
  reached := .start
  placed task member i place := by rw [List.mem_singleton.mp member] at place; cases place
  apart i := Nat.zero_le _
  reading task member attends := by rw [List.mem_singleton.mp member] at attends; cases attends
  during task member i place := by rw [List.mem_singleton.mp member] at place; cases place
  between _ := .inr ⟨nofun, rfl, fun _ => rfl⟩
  verdict e member := by cases member

theorem requestStop (attending : s.Attending) : ({ s with
    stopRequested := true, tasks :=
      if s.stopCallback then s.tasks ++ [(none, .forward)] else s.tasks } : Connect).Attending := by
  cases s.stopCallback with
  | false => exact ⟨attending.reached, attending.placed, attending.apart, attending.reading,
      fun task member i place reads =>
      (attending.during task member i place reads).congr rfl rfl rfl id, fun none =>
      (attending.between none).imp_right fun sums => sums.congr rfl rfl, attending.verdict⟩
  | true =>
    have old {task : ConnectTask} (member : task ∈ s.tasks ++ [(none, .forward)]) :
      task ∈ s.tasks ∨ task = (none, .forward) :=
      (List.mem_append.mp member).imp_right List.mem_singleton.mp
    refine ⟨attending.reached, fun task member i place => ?_, fun i => ?_,
      fun task member attends => ?_, fun task member i place reads => ?_, fun none => ?_,
      attending.verdict⟩
    · rcases old member with known | rfl
      · exact attending.placed task known i place
      · cases place
    · refine (List.countP_append).trans_le (Nat.add_le_add (attending.apart i) (Nat.le_refl 0))
    · rcases old member with known | rfl
      · exact attending.reading task known attends
      · cases attends
    · rcases old member with known | rfl
      · exact (attending.during task known i place reads).congr rfl rfl rfl id
      · cases place
    · have before := attending.between fun task member => none task (List.mem_append_left _ member)
      exact before.imp_right fun sums => sums.congr rfl rfl

theorem step (attending : s.Attending) (state : s.Standing ∨ s.Refused) {action : ConnectAction}
    (stepped : s.step action = some t) : t.Attending := by
  rcases step_runs stepped with ⟨_, _, moved⟩ | ⟨k, thread, work, u, next, found, runs,
    rfl⟩ | rfl | ⟨-, rfl⟩
  · refine attending.context (fun some => ?_) moved
    rcases state with standing | refused
    · by_contra free
      exact some (standing.unclaimed (Bool.not_eq_true _ ▸ free)).2
    · exact absurd refused.owner (context_frame moved).1
  · refine attending.task found runs fun owns => ?_
    rcases state with standing | refused
    · exact (standing.claimed (List.mem_of_getElem? found) owns).1
    · simp [refused.tasks] at found
  · exact attending
  · exact attending.requestStop

theorem of_reachable {useTls : Bool} {s : Connect} (run : (asyncConnect useTls).Reachable s) :
    s.Attending :=
  run.invariant Attending (initial useTls) fun _ _ _ earlier attending _ stepped =>
    attending.step (Standing.of_reachable earlier) stepped

end Attending

end Connect

/-- The state that a session comes in is the one that the first greeting handled asks for, and no
    session comes after a BYE, however the handlers, the callbacks and the stop come between each
    other. -/
theorem connect_verdict {useTls : Bool} {s : Connect} (run : (asyncConnect useTls).Reachable s) :
    ∀ e ∈ s.exits, e.session = true → e.Verdict s.heard :=
  (Connect.Attending.of_reachable run).verdict

/-- Another thread reads the greeting between the construction of the connection and the
    subscription. -/
def greetingMissed : List ConnectAction :=
  sessionUp.take 10 ++ [.context 0 .go, .context 1 (.data [ascii "* PREAUTH hi"]), .context 1 .go,
    .context 1 .go, .context 1 .go, .context 1 .go, .context 1 .go, .task 0 .go, .task 0 (.at 7),
    .context 4 .go, .task 0 .go, .task 0 .go, .task 0 .go, .context 6 .done, .context 6 .go,
    .context 6 .go, .context 6 .go, .context 7 .done,
    .context 7 .go, .context 2 (.data [ascii "a0001 OK done"]), .context 2 .go, .context 2 .go,
    .task 0 .go, .task 0 .go, .task 0 .go, .task 0 .go, .task 0 .go]

theorem connect_verdict_missed : ∃ s : Connect, s.missed = [.greeting .preauth (ascii "hi") none] ∧
    s.exits = [.notAuthenticated .empty] ∧ ConnectExit.Verdict s.heard (.notAuthenticated .empty) := by
  obtain ⟨s, run, here⟩ := (asyncConnect false).reachable_of_trace greetingMissed
    (fun s => decide (s.missed = [.greeting .preauth (ascii "hi") none] ∧
    s.exits = [.notAuthenticated .empty]))
    (by decide)
  obtain ⟨missed, exits⟩ := of_decide_eq_true here
  exact ⟨s, missed, exits, connect_verdict run _ (by simp [exits]) rfl⟩

end Bkmail
