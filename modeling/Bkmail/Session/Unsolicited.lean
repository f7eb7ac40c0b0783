import Bkmail.Automaton.Runs
import Bkmail.Command.Snapshot
import Bkmail.Context.State

namespace Bkmail

structure TableEntry (H : Type) where
  id : Nat
  handler : H
  active : Bool := true
  deriving DecidableEq, Repr

structure UnsolicitedTable (H : Type) where
  entries : List (TableEntry H) := []
  nextId : Nat := 1
  deriving DecidableEq, Repr

namespace UnsolicitedTable

variable {H : Type}

def deactivateIn (id : Nat) : List (TableEntry H) → List (TableEntry H)
  | [] => []
  | entry :: rest => if entry.id = id then { entry with active := false } :: rest
      else entry :: deactivateIn id rest

def deactivate (t : UnsolicitedTable H) (id : Nat) : UnsolicitedTable H :=
  { t with entries := deactivateIn id t.entries }

def add (t : UnsolicitedTable H) (handler : H) : UnsolicitedTable H :=
  { entries := t.entries.filter (·.active) ++ [{ id := t.nextId, handler }], nextId := t.nextId + 1 }

def snapshot (t : UnsolicitedTable H) : List H := (t.entries.filter (·.active)).map (·.handler)

def live (t : UnsolicitedTable H) (concerns : H → Bool) : List (TableEntry H) :=
  t.entries.filter fun entry => entry.active && concerns entry.handler

theorem live_add (t : UnsolicitedTable H) (handler : H) (concerns : H → Bool) :
    (t.add handler).live concerns =
      t.live concerns ++ if concerns handler then [{ id := t.nextId, handler }] else [] := by
  have once :
    (t.entries.filter (·.active)).filter (fun entry => entry.active && concerns entry.handler) =
      t.entries.filter fun entry => entry.active && concerns entry.handler := by
    rw [List.filter_filter]
    refine List.filter_congr fun entry _ => ?_
    cases entry.active <;> simp
  rw [live, add, List.filter_append, once, live]
  by_cases own : concerns handler = true <;> simp [own]

theorem live_deactivate {t : UnsolicitedTable H} {concerns : H → Bool} {id : Nat}
    (other : ∀ entry ∈ t.live concerns, entry.id ≠ id) :
    (t.deactivate id).live concerns = t.live concerns := by
  obtain ⟨entries, nextId⟩ := t
  change ∀ entry ∈ entries.filter _, entry.id ≠ id at other
  change (deactivateIn id entries).filter _ = entries.filter _
  induction entries with
  | nil => rfl
  | cons entry rest ih =>
    rw [deactivateIn]
    split
    · next same =>
      have dead : (entry.active && concerns entry.handler) = false := by
        by_contra own
        exact other entry (List.mem_filter.mpr ⟨List.mem_cons_self, Bool.not_eq_false _ ▸ own⟩) same
      simp [dead]
    · rw [List.filter_cons, List.filter_cons, ih fun entry member => other entry (by simp_all)]

theorem mem_deactivate {t : UnsolicitedTable H} {id : Nat} {entry : TableEntry H}
    (member : entry ∈ (t.deactivate id).entries) :
    ∃ before ∈ t.entries, entry.id = before.id ∧ entry.handler = before.handler := by
  obtain ⟨entries, nextId⟩ := t
  change entry ∈ deactivateIn id entries at member
  change ∃ before ∈ entries, _
  induction entries with
  | nil => cases member
  | cons first rest ih =>
    rw [deactivateIn] at member
    split at member
    · rcases List.mem_cons.mp member with rfl | member
      · exact ⟨first, List.mem_cons_self, rfl, rfl⟩
      · exact ⟨entry, List.mem_cons_of_mem _ member, rfl, rfl⟩
    · rcases List.mem_cons.mp member with rfl | member
      · exact ⟨entry, List.mem_cons_self, rfl, rfl⟩
      · obtain ⟨before, earlier, same⟩ := ih member
        exact ⟨before, List.mem_cons_of_mem _ earlier, same⟩

theorem mem_add {t : UnsolicitedTable H} {handler : H} {entry : TableEntry H}
    (member : entry ∈ (t.add handler).entries) :
    entry ∈ t.entries ∨ entry = { id := t.nextId, handler } := by
  rcases List.mem_append.mp member with member | new
  · exact .inl (List.mem_filter.mp member).1
  · exact .inr (List.mem_singleton.mp new)

theorem snapshot_filter (t : UnsolicitedTable H) (concerns : H → Bool) :
    t.snapshot.filter concerns = (t.live concerns).map (·.handler) := by
  simp only [snapshot, live, List.filter_map, List.filter_filter]
  congr 2
  funext entry
  simp [Bool.and_comm]

end UnsolicitedTable

/-- What the hook of a selected state and the listener of an IDLE make of a push. EXISTS and RECENT
    set their count, EXPUNGE takes one off. -/
def MailboxInfo.push (info : MailboxInfo) : UnsolicitedEvent → MailboxInfo
  | .exists count => { info with «exists» := count }
  | .recent count => { info with recent := count }
  | .expunge _ => { info with «exists» := info.exists - 1 }
  | .flagsUpdate _ | .capability _ | .bye .. | .greeting .. => info

end Bkmail
