import Bkmail.Automaton.Runs
import Mathlib.Order.WellFounded

namespace Automaton

/-- The states from which every run comes to `goal`. Until then something can start, whatever starts
    comes to its end, and only finitely many steps are made. -/
inductive Machine.Inevitable {σ α : Type} (machine : Machine σ α) (starts ends : σ → α → Prop)
    (goal : σ → Prop) :
    σ → Prop where
  | here {state : σ} : goal state → Inevitable machine starts ends goal state
  | later {state : σ} : (∃ action after, starts state action ∧ machine.step state action = some after) →
      (∀ action after, starts state action → machine.step state action = some after →
      ends state action) →
      (∀ action after, starts state action → machine.step state action = some after →
        Inevitable machine starts ends goal after) → Inevitable machine starts ends goal state

variable {σ α : Type} {machine : Machine σ α} {starts ends : σ → α → Prop} {goal : σ → Prop} {start : σ}

namespace Machine.Inevitable

theorem of_rank {β : Type} {less : β → β → Prop} (wellFounded : WellFounded less) (rank : σ → β)
    (holds : σ → Prop)
    (lives : ∀ before, holds before → ¬goal before →
      ∃ action after, starts before action ∧ machine.step before action = some after)
    (keeps : ∀ before action after, holds before → starts before action →
      machine.step before action = some after →
      ends before action ∧ holds after ∧ less (rank after) (rank before))
    (begun : holds start) : machine.Inevitable starts ends goal start := by
  generalize height : rank start = level
  induction level using wellFounded.induction generalizing start with
  | _ level ih =>
    subst height
    by_cases reached : goal start
    · exact .here reached
    · refine .later (lives start begun reached) (fun action after starting stepped => ?_)
        fun action after starting stepped => ?_
      · exact (keeps start action after begun starting stepped).1
      · obtain ⟨-, kept, lower⟩ := keeps start action after begun starting stepped
        exact ih _ lower kept rfl

end Machine.Inevitable

end Automaton
