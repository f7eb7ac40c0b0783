import Mathlib.Data.List.Basic

namespace Automaton

variable {ι : Type}

/-- Of items that are pending once at most, one thread holds all. -/
theorem thread_unique {threads : List (List ι)} {counts : ι → Bool}
    (bound : threads.flatten.countP counts ≤ 1)
    {i j : Nat} {first second : List ι} (here : threads[i]? = some first)
    (there : threads[j]? = some second)
    (one : first.any counts = true) (other : second.any counts = true) : i = j := by
  have positive {thread : List ι} (some : thread.any counts = true) : 0 < thread.countP counts := by
    obtain ⟨item, member, counted⟩ := List.any_eq_true.mp some
    exact List.countP_pos_iff.mpr ⟨item, member, counted⟩
  have inside {threads : List (List ι)} {k : Nat} {thread : List ι}
    (found : threads[k]? = some thread) :
      thread.countP counts ≤ threads.flatten.countP counts :=
    (List.sublist_flatten_of_mem (List.mem_of_getElem? found)).countP_le
  induction threads generalizing i j with
  | nil => simp at here
  | cons thread threads ih =>
    rw [List.flatten_cons, List.countP_append] at bound
    cases i with
    | zero =>
      cases j with
      | zero => rfl
      | succ j =>
        rw [List.getElem?_cons_zero, Option.some.injEq] at here
        subst here
        have later := inside (List.getElem?_cons_succ.symm.trans there)
        have := positive one
        have := positive other
        omega
    | succ i =>
      have earlier := inside (List.getElem?_cons_succ.symm.trans here)
      cases j with
      | zero =>
        rw [List.getElem?_cons_zero, Option.some.injEq] at there
        subst there
        have := positive one
        have := positive other
        omega
      | succ j =>
        rw [List.getElem?_cons_succ] at here there
        rw [ih (by omega) here there]

theorem set_append_of_ne {threads more : List (List ι)} {i j : Nat} (left : List ι) (apart : j ≠ i)
    (inside : j < threads.length) :
    (threads.set i left ++ more)[j]? = threads[j]? := by
  rw [List.getElem?_append_left (by simpa using inside), List.getElem?_set_ne (Ne.symm apart)]

theorem mem_stays {pool : List ι} {k : Nat} {item other : ι} (found : pool[k]? = some item)
    (member : other ∈ pool) :
    other = item ∨ other ∈ pool.eraseIdx k := by
  obtain ⟨j, place⟩ := List.mem_iff_getElem?.mp member
  by_cases same : j = k
  · subst same
    exact .inl (Option.some.inj (place.symm.trans found))
  · exact .inr (List.mem_eraseIdx_iff_getElem?.mpr ⟨j, same, place⟩)

variable {heads follows : ι → Bool}

def escorted (heads follows : ι → Bool) : List ι → Bool
  | [] => true
  | item :: items => (!heads item || items.any follows) && escorted heads follows items

theorem escorted_append {front back : List ι} (first : escorted heads follows front = true)
    (second : escorted heads follows back = true) : escorted heads follows (front ++ back) = true := by
  induction front with
  | nil => exact second
  | cons item items ih =>
    simp only [escorted, Bool.and_eq_true, Bool.or_eq_true, Bool.not_eq_true', List.cons_append,
      List.any_append] at first ⊢
    exact ⟨first.1.imp_right .inl, ih first.2⟩

theorem escorted_of_none {items : List ι} (none : ∀ item ∈ items, heads item = false) :
    escorted heads follows items = true := by
  induction items with
  | nil => rfl
  | cons item items ih =>
    rw [escorted, none item List.mem_cons_self, ih fun other member =>
      none other (List.mem_cons_of_mem _ member)]
    rfl

end Automaton
