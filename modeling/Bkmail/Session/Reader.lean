import Bkmail.Automaton.Threads
import Bkmail.Context.Control
import Bkmail.Session.Operation

namespace Bkmail

def Work.replies : Work → Bool
  | .onTagged .. => true
  | _ => false

open Automaton (escorted)

theorem ContextCore.readLoop_escorts (s : ContextCore) (texts : List Bytes) :
    escorted Work.replies Work.reads (s.readLoop texts).left = true ∧
    (s.readLoop texts).armed = [] := by
  cases texts with
  | nil => exact ⟨rfl, rfl⟩
  | cons text rest =>
    show escorted _ _ (s.dispatch text rest).left = true ∧ (s.dispatch text rest).armed = []
    unfold dispatch
    split
    · exact ⟨rfl, rfl⟩
    · unfold dispatchTagged
      split
      · exact ⟨rfl, rfl⟩
      · split <;> exact ⟨rfl, rfl⟩
    · exact ⟨rfl, rfl⟩
    · unfold dispatchContinuation
      split
      · exact ⟨rfl, rfl⟩
      · dsimp only
        split <;> exact ⟨rfl, rfl⟩

theorem Section.Runs.escorts {s : ContextCore} {sec : Section} {o : Outcome} (runs : sec.Runs s o) :
    escorted Work.replies Work.reads o.left = true ∧ ∀ work ∈ o.armed, work.replies = false := by
  by_cases loops : ∃ texts, sec = .work (.readLoop texts) .go
  · obtain ⟨texts, rfl⟩ := loops
    cases runs
    obtain ⟨left, armed⟩ := s.readLoop_escorts texts
    exact ⟨left, fun work member => by simp [armed] at member⟩
  · have quiet : ∀ work ∈ o.produced, work.replies = false := by
      intro work member
      cases work with
      | onTagged op r =>
        cases runs.hands member rfl with
        | reply texts => exact absurd ⟨texts, rfl⟩ loops
      | _ => rfl
    exact ⟨Automaton.escorted_of_none fun work member => quiet work (List.mem_append_left _ member),
      fun work member => quiet work (List.mem_append_right _ member)⟩

theorem Section.Runs.pushes_reads {core : ContextCore} {work : Work} {choice : Choice} {o : Outcome}
    (runs : Section.Runs core (.work work choice) o) (some : (Section.work work choice).pushes ≠ []) :
    work.reads = true ∧ o.left.any Work.reads = true := by
  cases runs with
  | readLoop texts =>
    refine ⟨rfl, ?_⟩
    cases texts with
    | nil => exact absurd rfl some
    | cons text rest =>
      simp only [Section.pushes] at some
      simp only [ContextCore.readLoop, ContextCore.dispatch]
      split at some
      · next r parsed =>
        rw [parsed]
        rfl
      · exact absurd rfl some
  | _ => exact absurd rfl some

namespace System

def reads (s : System) (i : Nat) : Bool := (s.threads[i]?.getD []).any Work.reads

variable {s t : System} {i j : Nat}

theorem reads_unique (run : imapContext.Reachable s) (one : s.reads i = true)
    (other : s.reads j = true) : i = j := by
  have bound : s.threads.flatten.countP Work.reads ≤ 1 := by
    have count := (Latched.of_run (.of_reachable run)).read
    rw [show s.threads.flatten.countP Work.reads = readsOf s.pending from rfl, count]
    split <;> omega
  unfold reads at one other
  cases here : s.threads[i]? with
  | none => simp [here] at one
  | some first =>
    cases there : s.threads[j]? with
    | none => simp [there] at other
    | some second =>
      rw [here] at one
      rw [there] at other
      exact Automaton.thread_unique bound here there one other

theorem reads_congr (same : t.threads[i]? = s.threads[i]?) :
    t.reads i = s.reads i := by rw [reads, reads, same]

theorem call_threads {c : Call} (stepped : s.step (.call c) = some t) :
    s.threads.length ≤ t.threads.length ∧ ∀ k < s.threads.length, t.threads[k]? = s.threads[k]? := by
  obtain ⟨o, -, rfl⟩ := Option.map_eq_some_iff.mp stepped
  refine ⟨?_, fun k inside => ?_⟩
  · simp only [List.length_append]
    omega
  · rw [List.append_assoc]
    exact List.getElem?_append_left inside

theorem resume_threads {choice : Choice} (stepped : s.step (.resume i choice) = some t) :
    ∃ work rest o, s.threads[i]? = some (work :: rest) ∧ Section.Runs s.core (.work work choice) o ∧
      s.section? (.resume i choice) = some (.work work choice) ∧
      t = { core := o.core, threads := s.threads.set i (o.left ++ rest) ++ o.armed.map ([·]) } := by
  simp only [step] at stepped
  split at stepped
  · next work rest found =>
    obtain ⟨o, ran, rfl⟩ := Option.map_eq_some_iff.mp stepped
    exact ⟨work, rest, o, found, Section.runs_of_work ran, by simp [section?, found], rfl⟩
  · cases stepped

theorem resume_others {choice : Choice} (stepped : s.step (.resume i choice) = some t) :
    s.threads.length ≤ t.threads.length ∧ ∀ k < s.threads.length, k ≠ i →
    t.threads[k]? = s.threads[k]? := by
  obtain ⟨_, _, o, -, -, -, rfl⟩ := resume_threads stepped
  refine ⟨?_, fun k inside apart => Automaton.set_append_of_ne _ apart inside⟩
  simp only [List.length_append, List.length_set]
  omega

/-- Behind a tagged reply that is handed over, its thread goes on reading. -/
theorem escorts (run : imapContext.Reachable s) :
    ∀ thread ∈ s.threads, escorted Work.replies Work.reads thread = true := by
  refine run.invariant (fun s : System => ∀ thread ∈ s.threads,
    escorted Work.replies Work.reads thread = true)
    (fun thread member => ?_) fun before after action _ escorts _ stepped => ?_
  · rw [List.mem_singleton.mp member]
    rfl
  · have armed {o : Outcome} (quiet : ∀ work ∈ o.armed, work.replies = false) :
        ∀ thread ∈ o.armed.map ([·]), escorted Work.replies Work.reads thread = true := by
      intro thread member
      obtain ⟨work, inside, rfl⟩ := List.mem_map.mp member
      exact Automaton.escorted_of_none fun other here => List.mem_singleton.mp here ▸ quiet work inside
    cases action with
    | call c =>
      obtain ⟨o, ran, rfl⟩ := Option.map_eq_some_iff.mp stepped
      obtain ⟨left, quiet⟩ := (Section.runs_of_call ran).escorts
      intro thread member
      rcases List.mem_append.mp member with member | new
      · rcases List.mem_append.mp member with known | new
        · exact escorts thread known
        · rw [List.mem_singleton.mp new]
          exact left
      · exact armed quiet thread new
    | resume k choice =>
      obtain ⟨work, rest, o, found, runs, -, rfl⟩ := resume_threads stepped
      obtain ⟨left, quiet⟩ := runs.escorts
      have behind : escorted Work.replies Work.reads rest = true := by
        have whole := escorts _ (List.mem_of_getElem? found)
        rw [Automaton.escorted, Bool.and_eq_true] at whole
        exact whole.2
      intro thread member
      rcases List.mem_append.mp member with member | new
      · rcases List.mem_or_eq_of_mem_set member with known | rfl
        · exact escorts thread known
        · exact Automaton.escorted_append left behind
      · exact armed quiet thread new

end System

end Bkmail
