import Bkmail.Automaton.Traces
import Bkmail.Context.Tracks
import Bkmail.Context.Wakeup

namespace Bkmail

def Request.segments (request : Request) (tag : Tag) : List Bytes :=
  ((request.render tag).progress.map Progress.segments).getD []

/-- No cell is made at an address that a cell had before. -/
def Unreused (core : ContextCore) (_ : List Work) (sec : Section) : Prop :=
  ∀ addr ∈ sec.address, ∀ p < core.made, (core.cell p).addr ≠ addr

instance (core : ContextCore) (pending : List Work) (sec : Section) :
    Decidable (Unreused core pending sec) :=
  inferInstanceAs (Decidable (∀ addr ∈ sec.address, ∀ p < core.made, _))

theorem Unreused.spared {s : System} (run : GuardedRun Unreused s) : GuardedRun Spared s := by
  refine run.weaken
    fun before action earlier allowed sec selected addr made batch token p contains => ?_
  exact allowed sec selected addr made p ((Batched.of_run earlier).made batch token p contains)

/-- Each segment but the first is staged only after as many continuations as there are segments
    before it. -/
def Gated (events : List CellEvent) : Prop :=
  ∀ before after number segment, events = before ++ .staged number segment :: after →
    (stagedSegments before).length ≤ continuations before

theorem Gated.snoc {events : List CellEvent} (gated : Gated events) {event : CellEvent}
    (allowed : ∀ number segment, event = .staged number segment →
    (stagedSegments events).length ≤ continuations events) :
    Gated (events ++ [event]) := by
  have causal : Automaton.Causal (fun before event => ∀ number segment, event = .staged number segment →
      (stagedSegments before).length ≤ continuations before) events := by
    rintro before _ after split number segment rfl
    exact gated before after number segment split
  exact fun before after number segment split =>
    causal.snoc allowed before _ after split number segment rfl

theorem Track.allowed {c : Operation} {rendered p : Progress} {events : List CellEvent}
    (track : Track c rendered p events)
    (one : rendered.unlocked = 1) (unstaged : c.segmentStaged = false) (filled : c.nextSegment ≠ []) :
    (stagedSegments events).length ≤ continuations events := by
  have ahead : p.emitted < p.unlocked := by
    by_contra past
    exact filled ((track.nextSegment unstaged).trans (if_neg past))
  have unlocked := track.unlocked
  rw [track.staged, List.length_take]
  simp only [unstaged, Bool.false_eq_true, if_false]
  omega

/-- The history of every cell behind walls is gated. -/
theorem Gated.of_run {s : System} (run : GuardedRun Spared s) {op : OpId} (made : op < s.core.made)
    (gated : (s.core.cell op).request.gated = true) : Gated (history op s.core.log) := by
  refine run.invariant (fun core _ => ∀ op < core.made, (core.cell op).request.gated = true →
    Gated (history op core.log)) (fun _ _ _ _ gated => gated) (fun _ made =>
    absurd made (Nat.not_lt_zero _)) ?_ op made gated
  intro s others sec o earlier consumed ih _ runs op made behind
  have grounded := Grounded.of_run earlier
  rcases runs.newcomer made with old | ⟨_, _, _, _, -, -, rfl, -, log⟩
  · have fixed := runs.fixed old
    rw [fixed.request] at behind
    have gated := ih op old behind
    cases grounded.cell_step consumed runs old with
    | same _ log | done _ _ _ _ _ _ _ _ _ _ _ _ _ log | detach _ _ _ _ _ _ _ _ _ _ _ log | tagged _ _ _ log =>
      exact log ▸ gated
    | flush _ _ _ _ _ log => exact log ▸ gated.snoc (by simp)
    | «continue» _ _ _ _ _ _ _ _ _ log => exact log ▸ gated.snoc (by simp)
    | stage _ _ _ reached _ log =>
      refine log ▸ gated.snoc fun _ _ _ => ?_
      rcases Followed.of_run earlier op old with none | ⟨rendered, p, track⟩
      · generalize (s.core.cell op).request = request at behind none
        cases request <;> simp [Request.gated, Request.render, Command.progress] at behind none
      · exact track.allowed (Request.render_gated behind track.start)
          (ContextCore.reached_unstaged reached)
          (ContextCore.reached_segment reached)
  · rw [log, (Lived.of_run earlier).unborn _ (Nat.le_refl _)]
    intro before after number segment split
    simp at split

namespace ContextCore

theorem reached_wall {s : ContextCore} {op : OpId} (parked : (s.cell op).parked = true)
    (ahead behind : List OpId) :
    s.reached (ahead ++ op :: behind) = s.reached ahead := by
  simp only [Operation.parked, Bool.and_eq_true, beq_iff_eq] at parked
  have unwritten : (s.cell op).isWritten = false := by
    have waits : (s.cell op).command.awaitsContinuation = true := parked.1
    simp [Operation.isWritten, waits]
  induction ahead with
  | nil => simp [reached, unwritten, parked.1, parked.2]
  | cons q ahead ih => simp only [List.cons_append, reached, ih]

theorem kick_staged {s : ContextCore} (nodup : s.writeQueue.Nodup) {number : Nat} {q : OpId}
    {segment : Bytes}
    (logged : .staged number q segment ∈ s.kick.core.log) :
    .staged number q segment ∈ s.log ∨ q ∈ s.reached s.writeQueue := by
  have kicked := s.kicked nodup
  have staged : s.kick.core.log = s.log ∨ s.kick.core.log = (s.newDrain.drain s.writeQueue).1.log := by
    unfold kick
    split
    · exact .inl rfl
    · simp only
      split <;> exact .inr rfl
  rcases staged with same | same
  · exact .inl (same ▸ logged)
  · rw [same, kicked.log] at logged
    rcases List.mem_append.mp logged with old | new
    · exact .inl old
    · obtain ⟨op, reached, event⟩ := List.mem_map.mp new
      cases event
      exact .inr reached

end ContextCore

structure LiteralGated (s : System) (op : OpId) : Prop where
  ordered : ∃ sent, stagedSegments (history op s.core.log) =
    ((s.core.cell op).request.segments (s.core.cell op).tag).take sent
  gated : Gated (history op s.core.log)
  walled : (s.core.cell op).parked = true → ∀ ahead behind, s.core.writeQueue = ahead ++ op :: behind →
    ∀ number q segment, .staged number q segment ∈ s.core.kick.core.log →
      .staged number q segment ∈ s.core.log ∨ q ∈ ahead

/-- The segments of a gated command go out in order and once each, none before its continuation, and
    nothing goes out behind a command that waits. -/
theorem literal_gated {s : System} (run : GuardedRun Unreused s) {op : OpId} (made : op < s.core.made)
    (gated : (s.core.cell op).request.gated = true) : LiteralGated s op := by
  have spared := Unreused.spared run
  have nodup := (Custody.of_run run).nodup_queue
  refine ⟨?_, .of_run spared made gated, ?_⟩
  · rcases Followed.of_run spared op made with none | ⟨rendered, p, track⟩
    · generalize (s.core.cell op).request = request at gated none
      cases request <;> simp [Request.gated, Request.render, Command.progress] at gated none
    · exact ⟨_, by simpa [Request.segments, track.start] using track.staged⟩
  · intro parked ahead behind queue number q segment logged
    rcases ContextCore.kick_staged nodup logged with old | reached
    · exact .inl old
    · rw [queue, ContextCore.reached_wall parked] at reached
      exact .inr ((ContextCore.reached_sublist s.core ahead).subset reached)

/-- An APPEND whose line is written waits for its continuation. -/
theorem literal_gated_append : ∃ s, GuardedRun Unreused s ∧ 0 < s.core.made ∧
    (s.core.cell 0).request.gated = true ∧ (s.core.cell 0).parked = true ∧ LiteralGated s 0 := by
  obtain ⟨s, run, here⟩ := GuardedRun.of_trace Unreused
    (flushed (.append { mailbox := ascii "box", message := ascii "m" }))
    (fun s => decide (0 < s.core.made ∧ (s.core.cell 0).request.gated = true ∧
    (s.core.cell 0).parked = true)) (by decide)
  obtain ⟨made, gated, parked⟩ := of_decide_eq_true here
  exact ⟨s, run, made, gated, parked, literal_gated run made gated⟩

end Bkmail
