import Mathlib.Data.List.Basic

namespace Automaton

variable {α β γ : Type}

theorem foldl_last {step : β → α → β} {get : β → γ} {value? : α → Option γ}
    (steps : ∀ state item, get (step state item) = (value? item).getD (get state)) (items : List α)
    (state : β) :
    get (items.foldl step state) = (items.filterMap value?).getLast?.getD (get state) := by
  induction items generalizing state with
  | nil => rfl
  | cons item items ih =>
    rw [List.foldl_cons, ih, steps, List.filterMap_cons]
    cases value? item with
    | none => rfl
    | some value =>
      rw [List.getLast?_cons]
      rfl

theorem foldl_gathers {step : β → α → β} (holds : β → Prop) {adds : α → Prop}
    (steps : ∀ state item, holds (step state item) ↔ holds state ∨ adds item) (items : List α)
    (state : β) :
    holds (items.foldl step state) ↔ holds state ∨ ∃ item ∈ items, adds item := by
  induction items generalizing state with
  | nil => simp
  | cons item items ih =>
    rw [List.foldl_cons, ih, steps, or_assoc, List.exists_mem_cons_iff]

end Automaton
