import Bkmail.Command.Search
import Bkmail.Context.Vouched

namespace Bkmail

open Automaton

/-! The untagged handlers run under the mutex. Those of SEARCH and UID SEARCH do not return from
every line, and the whole context waits for them. -/

/-- A line that the handlers of SEARCH and UID SEARCH get through. -/
def Legible (text : Bytes) : Prop :=
  ∀ r, Parser.parse text = some (.untagged r) → r.kind = .search → Searchable r.payload

def Work.incoming : Work → Bool
  | .reading | .routeUntagged _ => true
  | _ => false

namespace ContextCore

def Searches (s : ContextCore) : Prop := ∃ op ∈ s.writeQueue, (s.cell op).wantsUntagged .search = true

theorem connectionLost_incoming (s : ContextCore) (ec : ErrorCode) :
    ∀ v ∈ (s.connectionLost ec).left, v.incoming = false := by
  unfold connectionLost
  split
  · simp
  · simp only [List.forall_mem_append, List.forall_mem_map]
    exact ⟨fun _ _ => rfl, by simp [Work.incoming]⟩

theorem retire_incoming (abandoned : Bool) (retired : List OpId) :
    ∀ v ∈ retire abandoned retired, v.incoming = false := by
  cases abandoned with
  | true => simp [retire, Work.incoming]
  | false =>
    simp only [retire, Bool.false_eq_true, if_false, List.forall_mem_append, List.forall_mem_map]
    exact ⟨fun _ _ => rfl, by simp [Work.incoming]⟩

/-- The dispatch of a line is the only section that routes it. -/
theorem dispatch_incoming (s : ContextCore) (text : Bytes) (rest : List Bytes) {v : Work}
    (member : v ∈ (s.dispatch text rest).produced) (comes : v.incoming = true) :
    ∃ r, Parser.parse text = some (.untagged r) ∧ v = .routeUntagged r := by
  unfold dispatch at member
  split at member
  · simp_all [Outcome.produced, Work.incoming]
  · unfold dispatchTagged at member
    split at member
    · simp_all [Outcome.produced, Work.incoming]
    · split at member <;> simp only [Outcome.produced, List.append_nil, List.mem_cons,
        List.not_mem_nil, or_false] at member
      · subst member
        cases comes
      · rcases member with rfl | rfl | rfl <;> cases comes
  · next r parsed =>
    simp only [dispatchUntagged, Outcome.produced, List.append_nil] at member
    rcases List.mem_pair.mp member with rfl | rfl
    · exact ⟨r, parsed, rfl⟩
    · cases comes
  · unfold dispatchContinuation at member
    split at member
    · simp_all [Outcome.produced, Work.incoming]
    · simp only at member
      split at member <;> simp only [Outcome.produced, List.append_nil] at member <;>
        rcases List.mem_pair.mp member with rfl | rfl <;> cases comes

/-- Outside the open phase no read is armed, and what is routed was dispatched. -/
theorem incoming {s : ContextCore} {w : Work} {choice : Choice} {o : Outcome}
    (runs : (Section.work w choice).Runs s o) (left : s.phase ≠ .opened) {v : Work}
    (member : v ∈ o.produced)
    (comes : v.incoming = true) : ∃ text rest r, w = .readLoop (text :: rest) ∧
      Parser.parse text = some (.untagged r) ∧ v = .routeUntagged r := by
  have plain (quiet : ∀ v ∈ o.produced, v.incoming = false) :
    ∃ text rest r, w = .readLoop (text :: rest) ∧
      Parser.parse text = some (.untagged r) ∧ v = .routeUntagged r := by
    rw [quiet v member] at comes
    cases comes
  cases runs with
  | readLoop texts =>
    cases texts with
    | nil => exact plain (by simp [ContextCore.readLoop, Outcome.produced, Work.incoming])
    | cons text rest =>
      obtain ⟨r, parsed, routed⟩ := s.dispatch_incoming text rest member comes
      exact ⟨text, rest, r, rfl, parsed, routed⟩
  | reading _ result =>
    refine plain ?_
    cases result <;> simp only [readReceiver] <;> split <;> simp [Outcome.produced, Work.incoming]
  | writeDone batch =>
    exact plain (by cases gone : s.abandoned <;> simp [onWriteDone, Outcome.produced, gone,
      Work.incoming])
  | kickScheduled => exact plain (by simp [kickReceiver, Outcome.produced, Work.incoming])
  | kickRefused => exact plain (by simp [kickReceiver, Outcome.produced, Work.incoming])
  | enqueueOperation op post =>
      exact plain (by simp [enqueueOperation, left, Outcome.produced, Work.incoming])
  | postKick => exact plain (by simp [ContextCore.postKick, left, Outcome.produced])
  | connectionLost ec => exact plain (by simpa [Outcome.produced] using s.connectionLost_incoming ec)
  | kickGate =>
    exact plain (by cases gone : s.abandoned <;> simp [ContextCore.kickGate, Outcome.produced, gone, Work.incoming])
  | kick => exact plain (by simp [ContextCore.kick, left, Outcome.produced])
  | armWrite batch => exact plain (by simpa [ContextCore.armWrite, left, Outcome.produced] using retire_incoming _ _)
  | writeFailed ec retired =>
    exact plain (by
      cases gone :
        s.abandoned <;> simp [ContextCore.writeFailed, Outcome.produced, gone, Work.incoming])
  | writeLost ec retired =>
    simp only [ContextCore.writeLost, Outcome.produced, connectionLost_armed, List.append_nil,
      List.forall_mem_append, List.forall_mem_map] at plain
    exact plain ⟨⟨s.connectionLost_incoming ec, fun _ _ => rfl⟩, by simp [Work.incoming]⟩
  | writeFlushed batch =>
    exact plain (by simpa [ContextCore.writeFlushed, left, Outcome.produced] using retire_incoming _ _)
  | armRead => exact plain (by simp [ContextCore.armRead, left, Outcome.produced])
  | routeUntagged => exact plain (by simp)
  | rearm => exact plain (by simp [ContextCore.rearm, left, Outcome.produced, Work.incoming])
  | readLost =>
    simp only [ContextCore.readLost, Outcome.produced, connectionLost_armed, List.append_nil,
      List.forall_mem_append] at plain
    exact plain ⟨s.connectionLost_incoming _, by simp [Work.incoming]⟩
  | _ =>
    exact plain (by simp [Outcome.produced, onWriteDone, ContextCore.writeQuiet,
      ContextCore.onReadFailed, ContextCore.readStop, Work.incoming])

end ContextCore

/-- The section comes to its end: the untagged handler of a (UID) SEARCH returns, if one is
    queued. -/
def Section.Returns (core : ContextCore) : Section → Prop
  | .work (.routeUntagged r) _ => core.Searches → ∀ found, ∃ fuel,
      (SearchCommand.onUntagged fuel found r).isSome ∧ (UidSearchCommand.onUntagged fuel found r).isSome
  | _ => True

/-- What the threads have still to dispatch or to route is legible. -/
structure LegibleAhead (pending : List Work) : Prop where
  texts : ∀ texts, .readLoop texts ∈ pending → ∀ text ∈ texts, Legible text
  routed : ∀ r, .routeUntagged r ∈ pending → r.kind = .search → Searchable r.payload

theorem search_ends_iff {r : UntaggedResponse} (found : List Nat) :
    (∃ fuel, (SearchCommand.onUntagged fuel found r).isSome ∧
    (UidSearchCommand.onUntagged fuel found r).isSome) ↔
      (r.kind = .search → Searchable r.payload) := by
  have same (fuel : Nat) :
    UidSearchCommand.onUntagged fuel found r = SearchCommand.onUntagged fuel found r := rfl
  simp only [same, and_self]
  by_cases search : r.kind = .search
  · simp only [SearchCommand.onUntagged, search, ne_eq, not_true_eq_false, if_false, forall_const]
    constructor
    · rintro ⟨fuel, ended⟩ c member
      by_contra other
      rw [not_or, Bool.not_eq_true, Bool.not_eq_true] at other
      rw [searchLoop_stuck member other] at ended
      cases ended
    · intro plain
      obtain ⟨result, ended⟩ := searchLoop_ends plain (Nat.le_refl _) found
      exact ⟨r.payload.length, by rw [ended]; rfl⟩
  · simp [SearchCommand.onUntagged, search]

theorem Section.returns_route_iff {core : ContextCore} {r : UntaggedResponse} {choice : Choice} :
    (Section.work (.routeUntagged r) choice).Returns core ↔
      (core.Searches → r.kind = .search → Searchable r.payload) :=
  forall_congr' fun _ => (forall_congr' search_ends_iff).trans (forall_const _)

namespace System

/-- A thread, or the completion of an operation in flight, as opposed to a new call. While a (UID)
    SEARCH is queued, the server sends it legible lines. -/
def Starts (s : System) : Action → Prop
  | .call _ => False
  | .resume _ (.data texts) => s.core.Searches → ∀ text ∈ texts, Legible text
  | .resume _ _ => True

def Returns (s : System) (action : Action) : Prop := ∀ sec, s.section? action = some sec →
    sec.Returns s.core

variable {s t : System} {action : Action}

theorem searches_back (reached : imapContext.Reachable s) (left : s.core.phase ≠ .opened)
    (stepped : s.step action = some t) (searches : t.core.Searches) : s.core.Searches := by
  obtain ⟨sec, o, others, -, ran, same, -, -⟩ := step_section stepped
  have runs := Section.runs ran
  have after := Wanting.of_run (GuardedRun.of_reachable (reached.next True.intro stepped))
  have before := Wanting.of_run (GuardedRun.of_reachable reached)
  have custody := Custody.of_run (.of_reachable reached)
  obtain ⟨op, queued, wants⟩ := searches
  rw [same] at after queued wants
  rcases runs.queue with lost | ⟨_, _, _, opened, _⟩
  · have earlier := lost.subset queued
    have made := custody.made op (custody.queue_live earlier)
    have still : op < o.core.made := runs.heap.1 ▸ Nat.lt_of_lt_of_le made (Nat.le_add_right _ _)
    refine ⟨op, earlier, ?_⟩
    rw [before op made, ← (runs.fixed made).request, ← after op still, wants]
  · exact absurd opened left

theorem legible_ahead (reached : imapContext.Reachable s) (left : s.core.phase ≠ .opened)
    (starts : s.Starts action)
    (stepped : s.step action = some t) (ahead : s.core.Searches → LegibleAhead s.pending) :
    t.core.Searches → LegibleAhead t.pending := by
  intro later
  have searches := searches_back reached left stepped later
  have before := ahead searches
  obtain ⟨sec, o, others, selected, ran, -, consumed, produced⟩ := step_section stepped
  have waiting {w : Work} (member : w ∈ others) : w ∈ s.pending :=
    consumed.symm.subset (List.mem_append_right _ member)
  have loop {texts : List Bytes} {choice : Choice} (own : sec = .work (.readLoop texts) choice) :
    ∀ text ∈ texts, Legible text :=
    before.texts texts (Grounded.consumed_mem consumed (own ▸ List.mem_cons_self))
  cases action with
  | call => exact starts.elim
  | resume i choice =>
    obtain ⟨w, -, rfl⟩ := Option.map_eq_some_iff.mp selected
    constructor
    · intro texts member
      rcases List.mem_append.mp (produced.subset member) with new | old
      · rcases Section.run_texts ran new with reading | ⟨text, _, own⟩
        · cases reading
          exact starts searches
        · exact fun later inside => loop own later (List.mem_cons_of_mem text inside)
      · exact before.texts texts (waiting old)
    · intro r member search
      rcases List.mem_append.mp (produced.subset member) with new | old
      · obtain ⟨text, rest, r', own, parsed, same⟩ :=
          ContextCore.incoming (Section.runs ran) left new rfl
        cases same
        exact loop (congrArg (Section.work · choice) own) text List.mem_cons_self r parsed search
      · exact before.routed r (waiting old) search

theorem returns (ahead : s.core.Searches → LegibleAhead s.pending) (action : Action) :
    s.Returns action := by
  intro sec selected
  cases sec with
  | call => exact True.intro
  | work w choice =>
    cases w with
    | routeUntagged r =>
      exact Section.returns_route_iff.mpr fun searches =>
        (ahead searches).routed r (section_pending selected)
    | _ => exact True.intro

end System
end Bkmail
