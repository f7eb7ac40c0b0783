import Bkmail.Context.Routing
import Bkmail.Context.Transport

namespace Bkmail

/-- The registry does not dangle: every entry is for a cell that is not disposed, the pointer leads
    to that cell, and a broadcast of an untagged response follows no pointer to a disposed one. -/
structure Anchored (core : ContextCore) : Prop where
  live : ∀ entry ∈ core.registry, entry.2 ∈ core.live
  found : ∀ tag p, ContextCore.lookup core.registry tag = some p → core.deref p = some p
  broadcast : ∀ r, (core.routeUntagged r).core.log = core.log

namespace ContextCore

theorem absorb_log {s : ContextCore} {p : OpId} (live : p ∈ s.live) (r : UntaggedResponse) :
    (absorb r s p).log = s.log := by
  unfold absorb
  split
  · rename_i absent
    have other := List.find?_eq_none.mp absent p live
    simp [sameAddress] at other
  · rfl

theorem absorbAll_log (r : UntaggedResponse) (ops : List OpId) (s : ContextCore)
    (live : ∀ p ∈ ops, p ∈ s.live) :
    (ops.foldl (absorb r) s).log = s.log := by
  induction ops generalizing s with
  | nil => rfl
  | cons p ops ih =>
    have kept := (absorb_agrees r s p).live
    rw [List.foldl_cons,
      ih (absorb r s p) fun q member => by rw [kept]; exact live q (List.mem_cons_of_mem p member)]
    exact absorb_log (live p List.mem_cons_self) r

theorem routeUntagged_log {s : ContextCore} (live : ∀ entry ∈ s.registry, entry.2 ∈ s.live)
    (r : UntaggedResponse) :
    (s.routeUntagged r).core.log = s.log := by
  unfold routeUntagged
  split
  · split <;> rfl
  · refine absorbAll_log r _ s fun p member => ?_
    obtain ⟨entry, registered, rfl⟩ := List.mem_map.mp member
    exact live entry registered

end ContextCore

theorem Held.of_run {s : System} (run : GuardedRun Kept s) : Held s.core s.pending :=
  run.invariant Held (fun _ _ _ perm held entry member =>
    (held entry member).permuted perm) (by simp [Held])
    fun _ _ _ _ earlier consumed held kept runs =>
      (Routed.of_run earlier).held_step runs consumed (.of_run earlier) held kept

/-- As long as no write gives up a registered cell outside the open phase, the registry never
    dangles. -/
theorem registry_anchored {s : System} (run : GuardedRun Kept s) : Anchored s.core := by
  have custody := Custody.of_run run
  have held := Held.of_run run
  have live : ∀ entry ∈ s.core.registry, entry.2 ∈ s.core.live := fun entry member =>
    (held entry member).live custody
  refine ⟨live, fun tag p found => ?_, ContextCore.routeUntagged_log live⟩
  exact Routed.deref_eq custody held found

/-- `close()` with the NOOP on its way, the end of the write, and then the given bytes. -/
def closeInFlight (texts : List Bytes) : List Action :=
  noopInFlight ++ [Action.call .close, .resume 6 .done, .resume 6 .go, .resume 6 .go, .resume 6 .go,
    .resume 1 (.data texts), .resume 1 .go, .resume 1 .go]

theorem registry_anchored_in_flight :
    ∃ s, GuardedRun Kept s ∧ s.core.registry = [(tagText 1, 0)] ∧ Anchored s.core := by
  obtain ⟨s, run, registered⟩ := GuardedRun.of_trace Kept (noopInFlight ++ [Action.call .close])
    (fun s => s.core.registry == [(tagText 1, 0)]) (by decide)
  exact ⟨s, run, eq_of_beq registered, registry_anchored run⟩

/-- The write that completes after `close()` destroys the NOOP and leaves its entry behind, which
    the next untagged response follows. -/
theorem registry_dangles :
    ∃ s, imapContext.Reachable s ∧ ¬ Anchored s.core ∧ .dangling 0 ∈ s.core.log := by
  obtain ⟨s, reached, dangles⟩ :=
    imapContext.reachable_of_trace (closeInFlight [ascii "* OK still here"])
    (fun s => decide (s.core.registry = [(tagText 1, 0)] ∧ s.core.live = [] ∧
    .dangling 0 ∈ s.core.log)) (by decide)
  obtain ⟨registered, none, logged⟩ := of_decide_eq_true dangles
  refine ⟨s, reached, fun anchored => ?_, logged⟩
  have live := anchored.live (tagText 1, 0) (by simp [registered])
  simp [none] at live

end Bkmail
