import Bkmail.Automaton.Traces
import Bkmail.Session.Unsolicited
import Mathlib.Data.List.Nodup
import Mathlib.Data.List.TakeWhile

namespace Bkmail

open Automaton

/-! The table of unsolicited-event handlers as its callers see it: tokens that come, move and go,
and notifications that walk over their snapshots while handlers do as they like. A cell is told by
its place among the allocations; a token object holds the identifier of its entry. -/

inductive TableEvent where
  | added (cell : Nat)
  | retired (cell : Nat)
  | disposed (cell : Nat)
  | began (notify : Nat)
  | called (notify cell : Nat)
  | ended (notify : Nat)
  deriving DecidableEq, Repr

structure Dispatch where
  table : UnsolicitedTable Nat := {}
  allocated : Nat := 0
  tokens : Nat → Option Nat := fun _ => none
  started : Nat := 0
  running : Nat → Option (List Nat) := fun _ => none
  log : List TableEvent := []

inductive TableAction where
  | add (token : Nat)
  | move (target source : Nat)
  | reset (token : Nat)
  | notify
  | call (notify : Nat)
  | finish (notify : Nat)
  deriving DecidableEq, Repr

namespace Dispatch

def add (s : Dispatch) (token : Nat) : Dispatch :=
  { s with
    table := s.table.add s.allocated
    allocated := s.allocated + 1
    tokens := Function.update s.tokens token (some s.table.nextId)
    log := s.log ++ (s.table.entries.filter (!·.active)).map (fun entry =>
      .disposed entry.handler) ++ [.added s.allocated] }

def reset (s : Dispatch) (token : Nat) : Dispatch :=
  match s.tokens token with
  | none => s
  | some id =>
    { s with
      table := s.table.deactivate id
      tokens := Function.update s.tokens token none
      log := s.log ++ ((s.table.entries.find? (·.id = id)).map fun entry =>
        .retired entry.handler).toList }

def move (s : Dispatch) (target source : Nat) : Dispatch :=
  if target = source then s
  else
    let cleared := s.reset target
    { cleared with tokens := Function.update (Function.update cleared.tokens target
    (s.tokens source)) source none }

def notify (s : Dispatch) : Dispatch :=
  { s with
    started := s.started + 1
    running := Function.update s.running s.started (some s.table.snapshot)
    log := s.log ++ [.began s.started] }

/-- A token is made in an object that holds none. What a handler does comes between its call and the
    next. -/
def step (s : Dispatch) : TableAction → Option Dispatch
  | .add token => if s.tokens token = none then some (s.add token) else none
  | .move target source => some (s.move target source)
  | .reset token => some (s.reset token)
  | .notify => some s.notify
  | .call k =>
    match s.running k with
    | some (cell :: rest) =>
      some { s with running := Function.update s.running k (some rest), log := s.log ++ [.called k cell] }
    | _ => none
  | .finish k =>
    match s.running k with
    | some [] => some { s with running := Function.update s.running k none, log := s.log ++ [.ended k] }
    | _ => none

end Dispatch

def dispatching : Machine Dispatch TableAction := ⟨{}, Dispatch.step⟩

namespace TableEvent

def note (active : List Nat) : TableEvent → List Nat
  | added cell => active ++ [cell]
  | retired cell => active.filter (· ≠ cell)
  | _ => active

/-- The registrations that are active behind some events, in the order in which they were made. -/
def registered (log : List TableEvent) : List Nat := log.foldl note []

def activeAtStart (k : Nat) (log : List TableEvent) : List Nat :=
  registered (log.takeWhile (· ≠ began k))

def calledBy? (k : Nat) : TableEvent → Option Nat
  | called notify cell => if notify = k then some cell else none
  | _ => none

def callsOf (k : Nat) (log : List TableEvent) : List Nat := log.filterMap (calledBy? k)

/-- What a notification may do: call the next of the registrations that were active when it began,
    as long as its storage is there, and end when it has called them all. -/
def Exact (before : List TableEvent) : TableEvent → Prop
  | called k cell => disposed cell ∉ before ∧ cell ∉ callsOf k before ∧
      callsOf k before ++ [cell] <+: activeAtStart k before
  | ended k => callsOf k before = activeAtStart k before
  | _ => True

end TableEvent

/-- No entry is freed that a running notification has still to call. -/
def Unhurried (s : Dispatch) : TableAction → Prop
  | .add _ => ∀ k pending, s.running k = some pending →
      ∀ entry ∈ s.table.entries, entry.handler ∈ pending →
      entry.active = true
  | _ => True

namespace UnsolicitedTable

theorem deactivateIn_handlers {H : Type} (id : Nat) (entries : List (TableEntry H)) :
    (deactivateIn id entries).map (·.handler) = entries.map (·.handler) := by
  induction entries with
  | nil => rfl
  | cons entry rest ih =>
    rw [deactivateIn]
    split
    · rfl
    · rw [List.map_cons, List.map_cons, ih]

/-- The reset of a token takes one registration out, and none if its entry is gone. -/
theorem deactivateIn_active {id : Nat} {entries : List (TableEntry Nat)}
    (nodup : (entries.map (·.handler)).Nodup) :
    ((deactivateIn id entries).filter (·.active)).map (·.handler) =
      ((entries.find? (·.id = id)).map fun entry =>
      TableEvent.retired entry.handler).toList.foldl TableEvent.note
        ((entries.filter (·.active)).map (·.handler)) := by
  induction entries with
  | nil => rfl
  | cons entry rest ih =>
    obtain ⟨own, distinct⟩ := List.nodup_cons.mp nodup
    have fresh : entry.handler ∉ rest.map (·.handler) := own
    have others : ∀ cell ∈ (rest.filter (·.active)).map (·.handler), cell ≠ entry.handler := by
      rintro cell member rfl
      exact fresh ((List.filter_sublist.map _).subset member)
    rw [deactivateIn]
    by_cases own : entry.id = id
    · rw [if_pos own, List.find?_cons_of_pos (by simpa using own)]
      have kept : ((rest.filter (·.active)).map (·.handler)).filter (· ≠ entry.handler) =
          (rest.filter (·.active)).map (·.handler) :=
          List.filter_eq_self.mpr fun cell member => by simpa using others cell member
      cases active : entry.active <;> simpa [active, TableEvent.note] using kept.symm
    · rw [if_neg own, List.find?_cons_of_neg (by simpa using own)]
      have tail := ih distinct
      cases found : rest.find? (·.id = id) with
      | none =>
        rw [found] at tail
        cases active : entry.active <;> simpa [active] using tail
      | some other =>
        rw [found] at tail
        have apart : other.handler ≠ entry.handler := by
          intro same
          have inside : other.handler ∈ rest.map (·.handler) :=
            List.mem_map_of_mem (List.mem_of_find?_eq_some found)
          exact fresh (same ▸ inside)
        cases active : entry.active <;> simpa [active, TableEvent.note, apart.symm] using tail

end UnsolicitedTable

namespace TableEvent

theorem registered_append (log events : List TableEvent) :
    registered (log ++ events) = events.foldl note (registered log) :=
  List.foldl_append ..

theorem registered_quiet {log events : List TableEvent}
    (quiet : ∀ event ∈ events, ∀ active, note active event = active) :
    registered (log ++ events) = registered log := by
  rw [registered_append]
  induction events with
  | nil => rfl
  | cons event events ih =>
    obtain ⟨own, others⟩ := List.forall_mem_cons.mp quiet
    rw [List.foldl_cons, own, ih others]

theorem activeAtStart_append {k : Nat} {log : List TableEvent} (started : began k ∈ log)
    (events : List TableEvent) :
    activeAtStart k (log ++ events) = activeAtStart k log := by
  rw [activeAtStart, activeAtStart, List.takeWhile_append, if_neg]
  intro whole
  have same := (List.takeWhile_prefix (· ≠ began k) (l := log)).eq_of_length whole
  simpa using List.takeWhile_eq_self_iff.mp same _ started

theorem activeAtStart_began {k : Nat} {log : List TableEvent} (fresh : began k ∉ log) :
    activeAtStart k (log ++ [began k]) = registered log := by
  have run : ∀ event ∈ log, decide (event ≠ began k) = true := by
    intro event member
    simpa using fun same : event = began k => fresh (same ▸ member)
  rw [activeAtStart, List.takeWhile_append_of_pos run]
  simp

theorem callsOf_append (k : Nat) (log events : List TableEvent) :
    callsOf k (log ++ events) = callsOf k log ++ callsOf k events :=
  List.filterMap_append

theorem callsOf_other {k : Nat} {log events : List TableEvent}
    (other : ∀ event ∈ events, calledBy? k event = none) :
    callsOf k (log ++ events) = callsOf k log := by
  rw [callsOf_append, callsOf, callsOf, List.filterMap_eq_nil_iff.mpr other, List.append_nil]

end TableEvent

open TableEvent

/-- What every state of a run keeps, as long as no add frees an entry that is still to be called. -/
structure Dispatching (s : Dispatch) : Prop where
  cells : (s.table.entries.map (·.handler)).Pairwise (· < ·)
  made : ∀ cell ∈ s.table.entries.map (·.handler), cell < s.allocated
  active : registered s.log = s.table.snapshot
  freed : ∀ cell, disposed cell ∈ s.log → cell ∉ s.table.entries.map (·.handler) ∧ cell < s.allocated
  begun : ∀ k, began k ∈ s.log ↔ k < s.started
  unheard : ∀ k, s.started ≤ k → callsOf k s.log = []
  progress : ∀ k pending, s.running k = some pending →
    k < s.started ∧ callsOf k s.log ++ pending = activeAtStart k s.log ∧
    (activeAtStart k s.log).Nodup
  stored : ∀ k pending, s.running k = some pending →
    ∀ cell ∈ pending, cell ∈ s.table.entries.map (·.handler)
  causal : Causal Exact s.log

namespace Dispatching

theorem nodup {s : Dispatch} (d : Dispatching s) : (s.table.entries.map (·.handler)).Nodup :=
  d.cells.imp Nat.ne_of_lt

theorem snapshot_stored (s : Dispatch) :
    ∀ cell ∈ s.table.snapshot, cell ∈ s.table.entries.map (·.handler) :=
  fun _ member => (List.filter_sublist.map _).subset member

theorem initial : Dispatching {} where
  cells := .nil
  made := by simp
  active := rfl
  freed := by simp
  begun := by simp
  unheard := fun _ _ => rfl
  progress := by simp
  stored := by simp
  causal := .nil

theorem notify {s : Dispatch} (d : Dispatching s) : Dispatching s.notify := by
  have fresh : began s.started ∉ s.log := fun member => Nat.lt_irrefl _ ((d.begun _).mp member)
  have silent (k : Nat) : callsOf k (s.log ++ [began s.started]) = callsOf k s.log :=
    callsOf_other (by simp [calledBy?])
  have begins : activeAtStart s.started (s.log ++ [began s.started]) = s.table.snapshot := by
    rw [activeAtStart_began fresh, d.active]
  refine ⟨d.cells, d.made, ?_, ?_, ?_, ?_, ?_, ?_, d.causal.snoc True.intro⟩
  · exact (registered_quiet (by simp [note])).trans d.active
  · intro cell gone
    exact d.freed cell (by simpa [Dispatch.notify] using gone)
  · intro k
    simp only [Dispatch.notify, List.mem_append, List.mem_singleton, began.injEq, d.begun]
    omega
  · intro k later
    exact (silent k).trans (d.unheard k (Nat.le_of_succ_le later))
  · intro k pending running
    by_cases new : k = s.started
    · subst new
      obtain rfl : s.table.snapshot = pending := by simpa [Dispatch.notify] using running
      refine ⟨Nat.lt_succ_self _, ?_, ?_⟩
      · change callsOf _ (s.log ++ _) ++ _ = activeAtStart _ (s.log ++ _)
        rw [silent, d.unheard _ (Nat.le_refl _), begins]
        rfl
      · change (activeAtStart _ (s.log ++ _)).Nodup
        rw [begins]
        exact d.nodup.sublist (List.filter_sublist.map _)
    · obtain ⟨earlier, calls, nodup⟩ :=
        d.progress k pending (by simpa [Dispatch.notify, new] using running)
      have kept := activeAtStart_append ((d.begun k).mpr earlier) [began s.started]
      exact ⟨Nat.lt_succ_of_lt earlier, by simpa [Dispatch.notify, silent, kept] using calls,
        by simpa [Dispatch.notify, kept] using nodup⟩
  · intro k pending running
    by_cases new : k = s.started
    · subst new
      obtain rfl : s.table.snapshot = pending := by simpa [Dispatch.notify] using running
      exact snapshot_stored s
    · exact d.stored k pending (by simpa [Dispatch.notify, new] using running)

theorem call {s : Dispatch} (d : Dispatching s) {k cell : Nat} {rest : List Nat}
    (next : s.running k = some (cell :: rest)) :
    Dispatching { s with
      running := Function.update s.running k (some rest)
      log := s.log ++ [called k cell] } := by
  obtain ⟨earlier, calls, nodup⟩ := d.progress k _ next
  have there := d.stored k _ next
  have kept (j : Nat) (started : j < s.started) :=
    activeAtStart_append ((d.begun j).mpr started) [called k cell]
  have own : callsOf k (s.log ++ [called k cell]) = callsOf k s.log ++ [cell] := by
    rw [callsOf_append]
    simp [callsOf, calledBy?]
  have silent (j : Nat) (other : j ≠ k) : callsOf j (s.log ++ [called k cell]) = callsOf j s.log :=
    callsOf_other (by simp [calledBy?, other.symm])
  refine ⟨d.cells, d.made, ?_, ?_, ?_, ?_, ?_, ?_,
    d.causal.snoc ⟨fun gone => ?_, fun again => ?_, rest, ?_⟩⟩
  · exact (registered_quiet (by simp [note])).trans d.active
  · intro cell gone
    exact d.freed cell (by simpa using gone)
  · intro j
    simpa using d.begun j
  · intro j later
    exact (silent j (Nat.ne_of_gt (Nat.lt_of_lt_of_le earlier later))).trans (d.unheard j later)
  · intro j pending running
    by_cases same : j = k
    · subst same
      obtain rfl : rest = pending := by simpa using running
      exact ⟨earlier, by rw [own, kept j earlier, ← calls]; simp, by rw [kept j earlier]; exact nodup⟩
    · obtain ⟨started, others, distinct⟩ := d.progress j pending (by simpa [same] using running)
      exact ⟨started, by rw [silent j same, kept j started,
        others], by rw [kept j started]; exact distinct⟩
  · intro j pending running
    by_cases same : j = k
    · subst same
      obtain rfl : rest = pending := by simpa using running
      exact fun other member => there other (List.mem_cons_of_mem _ member)
    · exact d.stored j pending (by simpa [same] using running)
  · exact (d.freed cell gone).1 (there cell List.mem_cons_self)
  · rw [← calls] at nodup
    exact (List.nodup_append.mp nodup).2.2 cell again cell List.mem_cons_self rfl
  · rw [← calls, List.append_assoc]
    rfl

theorem finish {s : Dispatch} (d : Dispatching s) {k : Nat} (done : s.running k = some []) :
    Dispatching { s with running := Function.update s.running k none, log := s.log ++ [ended k] } := by
  obtain ⟨-, calls, -⟩ := d.progress k _ done
  rw [List.append_nil] at calls
  have silent (j : Nat) : callsOf j (s.log ++ [ended k]) = callsOf j s.log :=
    callsOf_other (by simp [calledBy?])
  have left {j : Nat} {pending : List Nat}
    (running : Function.update s.running k none j = some pending) :
      s.running j = some pending := by
    by_cases same : j = k
    · simp [same] at running
    · simpa [same] using running
  refine ⟨d.cells, d.made, ?_, ?_, ?_, ?_, ?_, ?_, d.causal.snoc calls⟩
  · exact (registered_quiet (by simp [note])).trans d.active
  · intro cell gone
    exact d.freed cell (by simpa using gone)
  · intro j
    simpa using d.begun j
  · intro j later
    exact (silent j).trans (d.unheard j later)
  · intro j pending running
    obtain ⟨started, others, distinct⟩ := d.progress j pending (left running)
    have kept := activeAtStart_append ((d.begun j).mpr started) [ended k]
    exact ⟨started, by rw [silent, kept, others], by rw [kept]; exact distinct⟩
  · exact fun j pending running => d.stored j pending (left running)

theorem retire {s : Dispatch} (d : Dispatching s) (table : UnsolicitedTable Nat)
    {events : List TableEvent}
    (handlers : table.entries.map (·.handler) = s.table.entries.map (·.handler))
    (retires : ∀ event ∈ events, ∃ cell, event = retired cell)
    (active : table.snapshot = events.foldl note s.table.snapshot) :
    Dispatching { s with table, log := s.log ++ events } := by
  have silent (k : Nat) : callsOf k (s.log ++ events) = callsOf k s.log := by
    apply callsOf_other
    intro event member
    obtain ⟨cell, rfl⟩ := retires event member
    rfl
  have only {event : TableEvent} (member : event ∈ s.log ++ events)
    (other : ∀ cell, event ≠ retired cell) :
      event ∈ s.log := by
    rcases List.mem_append.mp member with old | new
    · exact old
    · obtain ⟨cell, same⟩ := retires event new
      exact absurd same (other cell)
  refine ⟨handlers ▸ d.cells, handlers ▸ d.made, ?_, ?_, ?_, ?_, ?_, ?_,
    d.causal.append fun before event after split => ?_⟩
  · exact (registered_append s.log events).trans (by rw [d.active, active])
  · intro cell gone
    exact handlers ▸ d.freed cell (only gone (by simp))
  · intro k
    refine ⟨fun member => (d.begun k).mp (only member (by simp)), fun started => ?_⟩
    exact List.mem_append_left _ ((d.begun k).mpr started)
  · intro k later
    exact (silent k).trans (d.unheard k later)
  · intro k pending running
    obtain ⟨started, calls, distinct⟩ := d.progress k pending running
    have kept := activeAtStart_append ((d.begun k).mpr started) events
    exact ⟨started, by rw [silent, kept, calls], by rw [kept]; exact distinct⟩
  · exact handlers ▸ d.stored
  · obtain ⟨cell, rfl⟩ := retires event (by simp [split])
    exact True.intro

theorem retoken {s : Dispatch} (d : Dispatching s) (tokens : Nat → Option Nat) :
    Dispatching { s with tokens } :=
  ⟨d.cells, d.made, d.active, d.freed, d.begun, d.unheard, d.progress, d.stored, d.causal⟩

theorem reset {s : Dispatch} (d : Dispatching s) (token : Nat) : Dispatching (s.reset token) := by
  rw [Dispatch.reset]
  cases s.tokens token with
  | none => exact d
  | some id =>
    have retires :
      ∀ event ∈ ((s.table.entries.find? (·.id = id)).map fun entry => retired entry.handler).toList,
        ∃ cell, event = retired cell := by
      intro event member
      obtain ⟨entry, -, rfl⟩ := Option.map_eq_some_iff.mp (Option.mem_toList.mp member)
      exact ⟨entry.handler, rfl⟩
    have retiring :=
      d.retire (s.table.deactivate id)
      (UnsolicitedTable.deactivateIn_handlers id s.table.entries) retires
      (UnsolicitedTable.deactivateIn_active d.nodup)
    exact retiring.retoken _

theorem move {s : Dispatch} (d : Dispatching s) (target source : Nat) :
    Dispatching (s.move target source) := by
  rw [Dispatch.move]
  split
  · exact d
  · exact (d.reset target).retoken _

theorem add {s : Dispatch} (d : Dispatching s) {token : Nat} (unhurried : Unhurried s (.add token)) :
    Dispatching (s.add token) := by
  have handlers : (s.add token).table.entries.map (·.handler) = s.table.snapshot ++ [s.allocated] := by
    simp [Dispatch.add, UnsolicitedTable.add, UnsolicitedTable.snapshot]
  have snapshot : (s.add token).table.snapshot = s.table.snapshot ++ [s.allocated] := by
    simp [Dispatch.add, UnsolicitedTable.add, UnsolicitedTable.snapshot]
  have part : s.table.snapshot.Sublist (s.table.entries.map (·.handler)) := List.filter_sublist.map _
  have old : ∀ cell ∈ s.table.snapshot, cell < s.allocated :=
    fun cell member => d.made cell (part.subset member)
  have freed {cell : Nat} (gone : disposed cell ∈
    (s.table.entries.filter (!·.active)).map fun entry => disposed entry.handler) :
      cell ∉ s.table.snapshot ∧ cell < s.allocated := by
    obtain ⟨entry, inside, same⟩ := List.mem_map.mp gone
    obtain ⟨member, inactive⟩ := List.mem_filter.mp inside
    cases same
    refine ⟨fun listed => ?_, d.made _ (List.mem_map_of_mem member)⟩
    obtain ⟨other, kept, same⟩ := List.mem_map.mp listed
    obtain ⟨there, active⟩ := List.mem_filter.mp kept
    obtain rfl := List.inj_on_of_nodup_map d.nodup there member same
    simp [active] at inactive
  have log : (s.add token).log =
      s.log ++ ((s.table.entries.filter (!·.active)).map (fun entry => disposed entry.handler) ++
      [added s.allocated]) :=
    List.append_assoc ..
  have frees : ∀ event ∈ (s.table.entries.filter (!·.active)).map (fun entry => disposed entry.handler),
      ∃ cell, event = disposed cell := by
    intro event member
    obtain ⟨entry, -, rfl⟩ := List.mem_map.mp member
    exact ⟨entry.handler, rfl⟩
  generalize (s.table.entries.filter (!·.active)).map (fun entry => disposed entry.handler) =
    events at freed log frees
  have silent (k : Nat) : callsOf k (s.log ++ (events ++ [added s.allocated])) = callsOf k s.log := by
    apply callsOf_other
    intro event member
    rcases List.mem_append.mp member with member | last
    · obtain ⟨cell, rfl⟩ := frees event member
      rfl
    · rw [List.mem_singleton.mp last]
      rfl
  have quiet : registered (s.log ++ events) = s.table.snapshot := by
    refine (registered_quiet fun event member active => ?_).trans d.active
    obtain ⟨cell, rfl⟩ := frees event member
    rfl
  refine ⟨?_, ?_, ?_, ?_, ?_, ?_, ?_, ?_, ?_⟩
  · rw [handlers, List.pairwise_append]
    exact ⟨d.cells.sublist part, List.pairwise_singleton _ _, fun cell member last same =>
      List.mem_singleton.mp same ▸ old cell member⟩
  · rw [handlers]
    intro cell member
    rcases List.mem_append.mp member with member | last
    · exact Nat.lt_succ_of_lt (old cell member)
    · exact List.mem_singleton.mp last ▸ Nat.lt_succ_self _
  · rw [log, snapshot, ← List.append_assoc, registered_append, quiet]
    rfl
  · intro cell gone
    have bounded : cell ∉ s.table.snapshot ∧ cell < s.allocated := by
      rw [log] at gone
      rcases List.mem_append.mp gone with gone | gone
      · exact ⟨fun listed => (d.freed cell gone).1 (part.subset listed), (d.freed cell gone).2⟩
      · rcases List.mem_append.mp gone with gone | last
        · exact freed gone
        · cases List.mem_singleton.mp last
    rw [handlers]
    exact ⟨by simpa using ⟨bounded.1, Nat.ne_of_lt bounded.2⟩, Nat.lt_succ_of_lt bounded.2⟩
  · intro k
    have none : began k ∉ events := by
      intro member
      obtain ⟨cell, same⟩ := frees _ member
      cases same
    rw [log]
    change _ ↔ k < s.started
    simpa [none] using d.begun k
  · intro k later
    rw [log, silent]
    exact d.unheard k later
  · intro k pending running
    obtain ⟨started, calls, distinct⟩ := d.progress k pending running
    have kept := activeAtStart_append ((d.begun k).mpr started) (events ++ [added s.allocated])
    rw [log, silent, kept]
    exact ⟨started, calls, distinct⟩
  · intro k pending running cell member
    obtain ⟨entry, there, rfl⟩ := List.mem_map.mp (d.stored k pending running cell member)
    have active := unhurried k pending running entry there member
    rw [handlers]
    exact List.mem_append_left _ (List.mem_map_of_mem (List.mem_filter.mpr ⟨there, active⟩))
  · rw [log]
    refine d.causal.append fun before event after split => ?_
    have member : event ∈ events ++ [added s.allocated] := by simp [split]
    rcases List.mem_append.mp member with member | last
    · obtain ⟨cell, rfl⟩ := frees event member
      exact True.intro
    · rw [List.mem_singleton.mp last]
      exact True.intro

theorem step {s after : Dispatch} {action : TableAction} (d : Dispatching s)
    (unhurried : Unhurried s action)
    (stepped : s.step action = some after) : Dispatching after := by
  cases action with
  | add token =>
    rw [Dispatch.step] at stepped
    split at stepped
    · cases stepped
      exact d.add unhurried
    · cases stepped
  | move target source =>
    cases stepped
    exact d.move target source
  | reset token =>
    cases stepped
    exact d.reset token
  | notify =>
    cases stepped
    exact d.notify
  | call k =>
    simp only [Dispatch.step] at stepped
    split at stepped
    · next next =>
      cases stepped
      exact d.call next
    · cases stepped
  | finish k =>
    simp only [Dispatch.step] at stepped
    split at stepped
    · next done =>
      cases stepped
      exact d.finish done
    · cases stepped

end Dispatching

/-- In a run without a hurried add every notification calls the registrations that were active when
    it began, each once and in their order, and none whose storage is gone. -/
theorem dispatch_exact {s : Dispatch} (run : dispatching.Guarded Unhurried s) : Causal Exact s.log :=
  (run.invariant Dispatching .initial fun _ _ _ _ d unhurried stepped =>
    d.step unhurried stepped).causal

theorem unhurried_add {s : Dispatch} (idle : ∀ k, (s.running k).getD [] = []) (token : Nat) :
    Unhurried s (.add token) := by
  intro k pending running entry _ member
  have none : pending = [] := by simpa [running] using idle k
  simp [none] at member

/-- The first handler resets the registration of the second, and the second makes a new one. -/
theorem handler_called : ∃ s, dispatching.Guarded Unhurried s ∧
    s.log = [added 0, added 1, began 0, called 0 0, retired 1, called 0 1, disposed 1,
    added 2, ended 0] ∧ Causal Exact s.log := by
  have first : dispatching.Guarded Unhurried (Dispatch.add {} 0) :=
    .next .start (unhurried_add (fun _ => rfl) 0) rfl
  have both := first.next (unhurried_add (fun _ => rfl) 1) rfl
  have began := both.next (show Unhurried _ .notify from True.intro) rfl
  have called := began.next (show Unhurried _ (.call 0) from True.intro) rfl
  have reset := called.next (show Unhurried _ (.reset 1) from True.intro) rfl
  have last := reset.next (show Unhurried _ (.call 0) from True.intro) rfl
  have third := last.next (unhurried_add (fun k => by cases k <;> rfl) 2) rfl
  have ended := third.next (show Unhurried _ (.finish 0) from True.intro) rfl
  exact ⟨_, ended, rfl, dispatch_exact ended⟩

/-- The first handler resets the registration of the second and makes a new one; then the second is
    called in storage that is gone. -/
theorem freed_handler_called : ∃ s, dispatching.Reachable s ∧ ¬ Causal Exact s.log := by
  have trace : ∃ s, dispatching.Reachable s ∧
      (s.log == [added 0, added 1, began 0, called 0 0, retired 1, disposed 1, added 2] ++ [called 0 1]) = true :=
    dispatching.guarded_of_trace (fun _ _ => true) [.add 0, .add 1, .notify, .call 0, .reset 1, .add 2, .call 0] _
      (fun _ _ _ => True.intro) rfl
  obtain ⟨s, reached, log⟩ := trace
  refine ⟨s, reached, fun causal => ?_⟩
  exact (causal _ (called 0 1) [] (beq_iff_eq.mp log)).1 (by decide)

end Bkmail
