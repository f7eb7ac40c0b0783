import Mathlib.Logic.Basic
import Mathlib.Data.Option.Basic

namespace Automaton

/-- A machine whose transitions are computed. An action that is not enabled has no successor. -/
structure Machine (σ α : Type) where
  init : σ
  step : σ → α → Option σ

/-- The states of the runs all of whose steps meet `guard`, a condition on the state before
    the step and on the action taken there. -/
inductive Machine.Guarded {σ α : Type} (machine : Machine σ α) (guard : σ → α → Prop) : σ → Prop where
  | start : Guarded machine guard machine.init
  | next {before after : σ} {action : α} : Guarded machine guard before → guard before action →
      machine.step before action = some after → Guarded machine guard after

def Machine.Reachable {σ α : Type} (machine : Machine σ α) : σ → Prop :=
  machine.Guarded fun _ _ => True

def Machine.run {σ α : Type} (machine : Machine σ α) (guard : σ → α → Bool) : σ → List α → Option σ
  | state, [] => some state
  | state, action :: rest =>
    if guard state action then (machine.step state action).bind (machine.run guard · rest) else none

variable {σ α : Type} {machine : Machine σ α} {guard weaker : σ → α → Prop} {state : σ}

theorem Machine.Guarded.invariant (holds : σ → Prop) (initial : holds machine.init)
    (preserved : ∀ before after action, machine.Guarded guard before → holds before →
      guard before action → machine.step before action = some after → holds after)
    (run : machine.Guarded guard state) : holds state := by
  induction run with
  | start => exact initial
  | next earlier allowed stepped ih => exact preserved _ _ _ earlier ih allowed stepped

theorem Machine.Guarded.mono (run : machine.Guarded guard state)
    (implies : ∀ before action, guard before action → weaker before action) :
    machine.Guarded weaker state := by
  induction run with
  | start => exact .start
  | next _ allowed stepped ih => exact ih.next (implies _ _ allowed) stepped

theorem Machine.Guarded.weaken (run : machine.Guarded guard state)
    (implies : ∀ before action, machine.Guarded guard before → guard before action →
    weaker before action) :
    machine.Guarded weaker state := by
  induction run with
  | start => exact .start
  | next earlier allowed stepped ih => exact ih.next (implies _ _ earlier allowed) stepped

theorem Machine.Guarded.reachable (run : machine.Guarded guard state) : machine.Reachable state :=
  run.mono fun _ _ _ => True.intro

theorem Machine.Guarded.of_run {check : σ → α → Bool}
    (sound : ∀ before action, check before action = true → guard before action) :
    ∀ {before after : σ} {actions : List α}, machine.Guarded guard before →
      machine.run check before actions = some after → machine.Guarded guard after
  | before, after, [], earlier, ran => by
    cases ran
    exact earlier
  | before, after, action :: rest, earlier, ran => by
    simp only [Machine.run] at ran
    split at ran
    · rename_i allowed
      cases stepped : machine.step before action with
      | none => simp [stepped] at ran
      | some middle =>
        simp only [stepped, Option.bind_some] at ran
        exact Guarded.of_run sound (earlier.next (sound _ _ allowed) stepped) ran
    · cases ran

theorem Machine.guarded_of_trace (check : σ → α → Bool) (actions : List α) (property : σ → Bool)
    (sound : ∀ before action, check before action = true → guard before action)
    (ran : (machine.run check machine.init actions).map property = some true) :
    ∃ final, machine.Guarded guard final ∧ property final = true := by
  cases reached : machine.run check machine.init actions with
  | none => simp [reached] at ran
  | some final =>
    simp only [reached, Option.map_some, Option.some.injEq] at ran
    exact ⟨final, .of_run sound .start reached, ran⟩

theorem Machine.reachable_of_trace (actions : List α) (property : σ → Bool)
    (ran : (machine.run (fun _ _ => true) machine.init actions).map property = some true) :
    ∃ final, machine.Reachable final ∧ property final = true :=
  machine.guarded_of_trace _ actions property (fun _ _ _ => True.intro) ran

/-- The states that the runs from `start` come to. -/
inductive Machine.Leads {σ α : Type} (machine : Machine σ α) (start : σ) : σ → Prop where
  | here : Leads machine start start
  | next {before after : σ} {action : α} : Leads machine start before →
      machine.step before action = some after → Leads machine start after

variable {start : σ}

theorem Machine.Leads.reachable (leads : machine.Leads start state)
    (reached : machine.Reachable start) :
    machine.Reachable state := by
  induction leads with
  | here => exact reached
  | next _ stepped ih => exact ih.next True.intro stepped

theorem Machine.Leads.invariant (holds : σ → Prop) (initial : holds start)
    (preserved : ∀ before after action, machine.Leads start before → holds before →
      machine.step before action = some after → holds after)
    (leads : machine.Leads start state) : holds state := by
  induction leads with
  | here => exact initial
  | next earlier stepped ih => exact preserved _ _ _ earlier ih stepped

inductive Machine.Follows {σ α : Type} (machine : Machine σ α) (guard : σ → α → Prop) (start : σ) :
    σ → Prop where
  | here : Follows machine guard start start
  | next {before after : σ} {action : α} : Follows machine guard start before → guard before action →
      machine.step before action = some after → Follows machine guard start after

theorem Machine.Follows.reachable (follows : machine.Follows guard start state)
    (reached : machine.Reachable start) :
    machine.Reachable state := by
  induction follows with
  | here => exact reached
  | next _ _ stepped ih => exact ih.next True.intro stepped

theorem Machine.Follows.mono (follows : machine.Follows guard start state)
    (implies : ∀ before action, guard before action → weaker before action) :
    machine.Follows weaker start state := by
  induction follows with
  | here => exact .here
  | next _ allowed stepped ih => exact ih.next (implies _ _ allowed) stepped

theorem Machine.Follows.invariant (holds : σ → Prop) (initial : holds start)
    (preserved : ∀ before after action, machine.Follows guard start before → holds before →
    guard before action → machine.step before action = some after → holds after)
    (follows : machine.Follows guard start state) : holds state := by
  induction follows with
  | here => exact initial
  | next earlier allowed stepped ih => exact preserved _ _ _ earlier ih allowed stepped

theorem Machine.Leads.follows (leads : machine.Leads start state) :
    machine.Follows (fun _ _ => True) start state := by
  induction leads with
  | here => exact .here
  | next _ stepped ih => exact ih.next True.intro stepped

theorem Machine.Follows.of_run {check : σ → α → Bool}
    (sound : ∀ before action, check before action = true → guard before action) :
    ∀ {before after : σ} {actions : List α}, machine.Follows guard start before →
      machine.run check before actions = some after → machine.Follows guard start after
  | before, after, [], earlier, ran => by
    cases ran
    exact earlier
  | before, after, action :: rest, earlier, ran => by
    simp only [Machine.run] at ran
    split at ran
    · rename_i allowed
      obtain ⟨middle, stepped, ran⟩ := Option.bind_eq_some_iff.mp ran
      exact Follows.of_run sound (earlier.next (sound _ _ allowed) stepped) ran
    · cases ran

theorem Machine.Leads.of_run {check : σ → α → Bool} :
    ∀ {before after : σ} {actions : List α}, machine.Leads start before →
      machine.run check before actions = some after → machine.Leads start after
  | before, after, [], earlier, ran => by
    cases ran
    exact earlier
  | before, after, action :: rest, earlier, ran => by
    simp only [Machine.run] at ran
    split at ran
    · obtain ⟨middle, stepped, ran⟩ := Option.bind_eq_some_iff.mp ran
      exact Leads.of_run (earlier.next stepped) ran
    · cases ran

end Automaton
