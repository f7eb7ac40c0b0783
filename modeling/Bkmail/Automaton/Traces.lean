import Mathlib.Data.List.Basic
import Mathlib.Data.List.Induction

namespace Automaton

variable {ε : Type} {allowed weaker : List ε → ε → Prop} {trace : List ε}

/-- Every event of a trace was allowed by the events before it. -/
def Causal (allowed : List ε → ε → Prop) (trace : List ε) : Prop :=
  ∀ before event after, trace = before ++ event :: after → allowed before event

theorem Causal.nil : Causal allowed [] := by
  intro before event after split
  simp at split

theorem Causal.snoc (causal : Causal allowed trace) {event : ε} (next : allowed trace event) :
    Causal allowed (trace ++ [event]) := by
  intro before last after split
  rcases List.eq_nil_or_concat after with rfl | ⟨after, latest, rfl⟩
  · obtain ⟨rfl, same⟩ := List.append_inj' split rfl
    exact List.singleton_inj.mp same ▸ next
  · rw [List.concat_eq_append, ← List.cons_append, ← List.append_assoc] at split
    exact causal before last after (List.append_inj' split rfl).1

theorem Causal.append (causal : Causal allowed trace) {events : List ε}
    (next : ∀ before event after, events = before ++ event :: after → allowed (trace ++ before) event) :
    Causal allowed (trace ++ events) := by
  induction events using List.reverseRecOn with
  | nil => simpa using causal
  | append_singleton events event ih =>
    rw [← List.append_assoc]
    refine (ih fun before last after split => ?_).snoc (next events event [] rfl)
    exact next before last (after ++ [event]) (by simp [split])

theorem Causal.mono (causal : Causal allowed trace)
    (implies : ∀ before, ∀ event ∈ trace, allowed before event → weaker before event) :
    Causal weaker trace := by
  intro before event after split
  exact implies before event (by simp [split]) (causal before event after split)

theorem pair_sublist_asymm {item other : ε} {items : List ε} (nodup : items.Nodup)
    (first : [item, other].Sublist items) :
    ¬ [other, item].Sublist items := by
  intro second
  induction items with
  | nil => cases first
  | cons head items ih =>
    obtain ⟨fresh, nodup⟩ := List.nodup_cons.mp nodup
    cases first with
    | cons _ first =>
      cases second with
      | cons _ second => exact ih nodup first second
      | cons_cons _ second => exact fresh (first.subset (by simp))
    | cons_cons _ first =>
      cases second with
      | cons _ second => exact fresh (second.subset (by simp))
      | cons_cons _ second => exact fresh (first.subset (by simp))

theorem pair_sublist_snoc {item other last : ε} {items : List ε}
    (order : [item, other].Sublist (items ++ [last]))
    (different : other ≠ last) : [item, other].Sublist items := by
  obtain ⟨earlier, later, split, first, second⟩ := List.sublist_append_iff.mp order
  rcases List.sublist_singleton.mp second with rfl | rfl
  · rw [List.append_nil] at split
    exact split ▸ first
  · have tails := congrArg List.getLast? split
    simp only [List.getLast?_append, List.getLast?_singleton, Option.some_or, List.getLast?_cons_cons,
      Option.some.injEq] at tails
    exact absurd tails different

theorem pair_sublist_inherit {item other : ε} {items fewer : List ε} (nodup : items.Nodup)
    (part : fewer.Sublist items)
    (order : [item, other].Sublist items) (first : item ∈ fewer) (second : other ∈ fewer) :
    [item, other].Sublist fewer := by
  obtain ⟨ahead, behind, rfl⟩ := List.append_of_mem first
  rcases List.mem_append.mp second with before | after
  · have reversed : [other, item].Sublist (ahead ++ item :: behind) :=
      (List.singleton_sublist.mpr before).append (List.singleton_sublist.mpr List.mem_cons_self)
    exact absurd order (pair_sublist_asymm nodup (reversed.trans part))
  · rcases List.mem_cons.mp after with rfl | after
    · simpa using order.nodup nodup
    · exact ((List.singleton_sublist.mpr after).cons_cons item).trans
        (List.sublist_append_right ahead _)

variable {ι : Type}

/-- What is added to the parts of some items goes to the end, when nothing behind an item that grows
    has a part yet. -/
theorem flatMap_extend {order grown : List ι} {part later : ι → List ε} {entry : ι → ε}
    (nodup : order.Nodup)
    (sub : grown.Sublist order) (fixed : ∀ item ∈ order, item ∉ grown → later item = part item)
    (grows : ∀ item ∈ grown, later item = part item ++ [entry item])
    (behind : order.Pairwise fun item other => item ∈ grown → part other = []) :
    order.flatMap later = order.flatMap part ++ grown.map entry := by
  induction sub with
  | slnil => rfl
  | @cons grown order item sub ih =>
    obtain ⟨fresh, nodup⟩ := List.nodup_cons.mp nodup
    have rest := ih nodup (fun other member => fixed other (List.mem_cons_of_mem _ member)) grows
      (List.pairwise_cons.mp behind).2
    rw [List.flatMap_cons, fixed item List.mem_cons_self fun member => fresh (sub.subset member), rest,
      List.flatMap_cons, List.append_assoc]
  | @cons_cons grown order item sub ih =>
    obtain ⟨fresh, nodup⟩ := List.nodup_cons.mp nodup
    obtain ⟨here, behind⟩ := List.pairwise_cons.mp behind
    have empty : order.flatMap part = [] :=
      List.flatMap_eq_nil_iff.mpr fun other member => here other member List.mem_cons_self
    have rest := ih nodup
      (fun other member missing => fixed other (List.mem_cons_of_mem _ member) fun found =>
        (List.mem_cons.mp found).elim (fun same => fresh (same ▸ member)) missing)
      (fun other member => grows other (List.mem_cons_of_mem _ member))
      (behind.imp fun apart member => apart (List.mem_cons_of_mem _ member))
    rw [List.flatMap_cons, grows item List.mem_cons_self, rest, empty, List.flatMap_cons, empty]
    simp

theorem flatMap_prefix {order : List ι} {part whole : ι → List ε}
    (starts : ∀ item ∈ order, part item <+: whole item)
    (last : order.Pairwise fun item other => part other ≠ [] →
    part item = whole item ∨ part item = []) :
    ∃ items : List ι, items.Sublist order ∧ order.flatMap part <+: items.flatMap whole := by
  induction order with
  | nil => exact ⟨[], .refl _, List.prefix_rfl⟩
  | cons item order ih =>
    obtain ⟨here, last⟩ := List.pairwise_cons.mp last
    obtain ⟨items, sub, start⟩ :=
      ih (fun other member => starts other (List.mem_cons_of_mem _ member)) last
    by_cases ends : ∀ other ∈ order, part other = []
    · refine ⟨[item], List.singleton_sublist.mpr List.mem_cons_self, ?_⟩
      simpa [List.flatMap_eq_nil_iff.mpr ends] using starts item List.mem_cons_self
    · obtain ⟨other, member, filled⟩ : ∃ other ∈ order, part other ≠ [] := by simpa using ends
      rcases here other member filled with all | none
      · refine ⟨item :: items, sub.cons_cons item, ?_⟩
        rw [List.flatMap_cons, List.flatMap_cons, all]
        exact (List.prefix_append_right_inj _).mpr start
      · refine ⟨items, sub.cons item, ?_⟩
        rwa [List.flatMap_cons, none]

end Automaton
