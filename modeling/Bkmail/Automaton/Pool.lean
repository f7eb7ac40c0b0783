import Mathlib.Data.List.Nodup
import Mathlib.Data.List.Pairwise
import Mathlib.Data.List.Perm.Basic
import Mathlib.Data.List.Flatten
import Mathlib.Algebra.Order.BigOperators.Group.List

namespace Automaton

variable {ι : Type}

/-- Running the head of one thread replaces that item by the items it leaves to do and keeps
    everything else that is pending. -/
theorem resume_exchange {threads : List (List ι)} {i : Nat} {item : ι} {rest : List ι}
    (head : threads[i]? = some (item :: rest)) (left : List ι) :
    ∃ others, threads.flatten.Perm (item :: others) ∧
      (threads.set i (left ++ rest)).flatten.Perm (left ++ others) := by
  induction threads generalizing i with
  | nil => simp at head
  | cons thread threads ih =>
    cases i with
    | zero =>
      simp only [List.getElem?_cons_zero, Option.some.injEq] at head
      subst head
      refine ⟨rest ++ threads.flatten, ?_, ?_⟩
      · simp
      · simp [List.append_assoc]
    | succ i =>
      simp only [List.getElem?_cons_succ] at head
      obtain ⟨others, before, after⟩ := ih head
      refine ⟨thread ++ others, ?_, ?_⟩
      · simp only [List.flatten_cons]
        exact (before.append_left thread).trans List.perm_middle
      · simp only [List.set_cons_succ, List.flatten_cons]
        refine (after.append_left thread).trans ?_
        rw [← List.append_assoc, ← List.append_assoc]
        exact List.perm_append_comm.append_right others

theorem countP_exchange {pool : List ι} {k : Nat} {item : ι} (found : pool[k]? = some item)
    (left : List ι)
    (counts : ι → Bool) : (pool.eraseIdx k ++ left).countP counts + (if counts item then 1 else 0) =
      pool.countP counts + left.countP counts := by
  obtain ⟨inside, rfl⟩ := List.getElem?_eq_some_iff.mp found
  have perm := (List.getElem_cons_eraseIdx_perm inside).countP_eq counts
  rw [List.countP_cons] at perm
  rw [List.countP_append]
  omega

theorem mem_exchange {pool : List ι} {k : Nat} {left : List ι} {item : ι}
    (member : item ∈ pool.eraseIdx k ++ left) :
    item ∈ pool ∨ item ∈ left :=
  (List.mem_append.mp member).imp_left List.mem_of_mem_eraseIdx

theorem filter_of_perm [DecidableEq ι] {whole kept gone : List ι} (perm : whole.Perm (kept ++ gone))
    (nodup : whole.Nodup) : (whole.filter fun item => !gone.contains item).Perm kept := by
  have parts : (kept ++ gone).Nodup := perm.nodup_iff.mp nodup
  have separate := (List.nodup_append.mp parts).2.2
  refine (perm.filter _).trans ?_
  rw [List.filter_append, List.filter_eq_self.mpr, List.filter_eq_nil_iff.mpr, List.append_nil]
  · intro item member
    simpa using member
  · intro item member
    simpa using fun gone => separate item member item gone rfl

theorem sole_holder {τ : Type} {pool : List ι} {holds : ι → List τ} (nodup : (pool.flatMap holds).Nodup)
    {first second : ι} (member : first ∈ pool) (member' : second ∈ pool)
    (different : first ≠ second) {token : τ}
    (held : token ∈ holds first) : token ∉ holds second := by
  have apart := (List.nodup_flatMap.mp nodup).2
  have symmetric : Std.Symm (Function.onFun List.Disjoint holds) :=
    ⟨fun _ _ apart _ left right => apart right left⟩
  exact fun held' => apart.forall member member' different held held'

end Automaton
