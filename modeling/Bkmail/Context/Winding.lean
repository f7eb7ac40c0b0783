import Bkmail.Automaton.Liveness
import Bkmail.Command.Message
import Bkmail.Context.Legible
import Bkmail.Context.Transport
import Mathlib.Data.Prod.Lex
import Mathlib.Order.WellFoundedSet

namespace Bkmail

open Automaton

/-! Once the context is no longer open it winds down by itself: its threads and the operations in
flight come to an end, and the descriptor is closed. -/

/-- What a section costs with all that it leads to, outside the open phase. A cell that a section
    takes from the queue pays for the section that ends it. -/
def Work.weight : Work → Nat
  | .reading => 0
  | .kick | .postKick | .fail .. | .onTagged .. | .dispose _ | .routeUntagged _ | .maybeFinishClose
  | .armRead => 1
  | .kickGate | .stopScheduled _ | .readStop | .rearm | .writeQuiet _ => 2
  | .kickScheduled | .postCompleteStopped _ | .enqueueOperation .. | .connectionLost _ | .armWrite _
  | .writeFlushed _ => 3
  | .onReadFailed _ => 4
  | .readLost => 5
  | .writing _ => 7
  | .writeLost _ retired => retired.length + 5
  | .writeFailed _ retired => retired.length + 6
  | .readLoop texts => 3 * texts.length + 6

def burden : List Work → Nat
  | [] => 0
  | w :: pending => w.weight + burden pending

@[simp] theorem burden_nil : burden [] = 0 := rfl

@[simp] theorem burden_cons (w : Work) (pending : List Work) :
    burden (w :: pending) = w.weight + burden pending := rfl

@[simp] theorem burden_append (left right : List Work) :
    burden (left ++ right) = burden left + burden right := by
  induction left with
  | nil => rw [List.nil_append, burden_nil, Nat.zero_add]
  | cons w left ih => rw [List.cons_append, burden_cons, burden_cons, ih, Nat.add_assoc]

@[simp] theorem burden_fails (ops : List OpId) (ec : ErrorCode) :
    burden (ops.map (Work.fail · ec)) = ops.length := by
  induction ops with
  | nil => rfl
  | cons op ops ih =>
    rw [List.map_cons, burden_cons, ih, Work.weight, List.length_cons, Nat.add_comm]

theorem burden_perm {before after : List Work} (perm : before.Perm after) :
    burden before = burden after := by
  induction perm with
  | nil => rfl
  | cons w _ ih => rw [burden_cons, burden_cons, ih]
  | swap v w pending =>
    simp only [burden_cons]
    omega
  | trans _ _ first second => exact first.trans second

namespace ContextCore

theorem burden_retire (abandoned : Bool) (retired : List OpId) :
    burden (retire abandoned retired) ≤ retired.length + 2 := by
  cases abandoned <;> simp [retire, Work.weight]

theorem length_extractAll (s : ContextCore) (ops : List OpId) :
    s.writeQueue.length = (s.extractAll ops).2.length + (s.extractAll ops).1.writeQueue.length := by
  rw [(extractAll_perm ops s).length_eq, List.length_append]

theorem connectionLost_burden (s : ContextCore) (ec : ErrorCode) :
    burden (s.connectionLost ec).left + (s.connectionLost ec).core.writeQueue.length ≤
    s.writeQueue.length + 2 := by
  unfold connectionLost
  split
  · simp
  · have taken := (takeCells_perm s fun c => !c.isStaged).length_eq
    rw [List.length_append] at taken
    change burden ((s.takeCellsLocked fun c => !c.isStaged).2.map (Work.fail · ec) ++ [_, _]) +
      (s.takeCellsLocked fun c => !c.isStaged).1.writeQueue.length ≤ _
    simp only [burden_append, burden_fails, burden_cons, burden_nil, Work.weight]
    omega

theorem dispatch_burden (s : ContextCore) (text : Bytes) (rest : List Bytes) :
    burden (s.dispatch text rest).produced + (s.dispatch text rest).core.writeQueue.length <
      (Work.readLoop (text :: rest)).weight + s.writeQueue.length := by
  unfold dispatch
  split
  · simp [Outcome.produced, Work.weight]
  · next r _ =>
    unfold dispatchTagged
    split
    · simp [Outcome.produced, Work.weight]
    · next p _ =>
      have queue := (extract_perm (s.forget r.tag p) p).length_eq
      rw [List.length_append] at queue
      split
      · next found =>
        rw [found] at queue
        simp [Outcome.produced, Work.weight] at queue ⊢
        omega
      · next found =>
        rw [found] at queue
        simp [Outcome.produced, Work.weight] at queue ⊢
        omega
  · simp [Outcome.produced, dispatchUntagged, Work.weight]
    omega
  · unfold dispatchContinuation
    split
    · simp [Outcome.produced, Work.weight]
    · simp only
      split <;> simp [Outcome.produced, Work.weight] <;> omega

/-- A section that a thread runs outside the open phase is paid for by itself and by the cells that
    it takes from the queue. -/
theorem falls {s : ContextCore} {w : Work} {choice : Choice} {o : Outcome}
    (runs : (Section.work w choice).Runs s o)
    (left : s.phase ≠ .opened) (other : w ≠ .reading) :
    burden o.produced + o.core.writeQueue.length < w.weight + s.writeQueue.length := by
  have lost := fun ec => s.connectionLost_burden ec
  cases runs with
  | reading => exact absurd rfl other
  | writeDone batch =>
    cases gone : s.abandoned <;> simp [onWriteDone, Outcome.produced, Work.weight, gone]
  | writeError batch ec =>
    have taken := s.unlatchWrite.length_extractAll batch.ops
    simp [onWriteDone, Outcome.produced, Work.weight] at taken ⊢
    omega
  | kickScheduled => simp [kickReceiver, Outcome.produced, Work.weight]
  | kickRefused => simp [kickReceiver, Outcome.produced, Work.weight]
  | stopScheduled => simp [Outcome.produced, Work.weight]
  | enqueueOperation op post => simp [enqueueOperation, left, Outcome.produced, Work.weight]
  | postKick => simp [ContextCore.postKick, left, Outcome.produced, Work.weight]
  | postCompleteStopped => simp [Outcome.produced, Work.weight]
  | fail => simp [Outcome.produced, Work.weight]
  | onTagged => simp [Outcome.produced, Work.weight]
  | dispose => simp [Outcome.produced, Work.weight, ContextCore.dispose]
  | maybeFinishClose => simp [Outcome.produced, Work.weight]
  | connectionLost ec =>
    have paid := lost ec
    simp only [Outcome.produced, connectionLost_armed, List.append_nil, Work.weight]
    omega
  | kickGate =>
      cases gone : s.abandoned <;> simp [ContextCore.kickGate, Outcome.produced, Work.weight, gone]
  | kick => simp [ContextCore.kick, left, Outcome.produced, Work.weight]
  | armWrite batch =>
    have taken := s.unlatchWrite.length_extractAll batch.ops
    have paid := burden_retire s.abandoned (s.unlatchWrite.extractAll batch.ops).2
    simp [ContextCore.armWrite, left, Outcome.produced, Work.weight] at taken paid ⊢
    omega
  | writeFailed ec retired =>
    cases gone : s.abandoned <;> simp [ContextCore.writeFailed, Outcome.produced, Work.weight, gone]
  | writeLost ec retired =>
    have paid := lost ec
    simp [ContextCore.writeLost, Outcome.produced, connectionLost_armed, Work.weight]
    omega
  | writeQuiet batch =>
    have taken := s.unlatchWrite.length_extractAll batch.ops
    simp [ContextCore.writeQuiet, Outcome.produced, Work.weight, ContextCore.dispose] at taken ⊢
    omega
  | writeFlushed batch =>
    have taken := s.unlatchWrite.length_extractAll batch.ops
    have paid := burden_retire false (s.unlatchWrite.extractAll batch.ops).2
    simp [ContextCore.writeFlushed, left, Outcome.produced, Work.weight] at taken paid ⊢
    omega
  | armRead => simp [ContextCore.armRead, left, Outcome.produced, Work.weight]
  | onReadFailed ec => simp [ContextCore.onReadFailed, Outcome.produced, Work.weight]
  | readLoop texts =>
    cases texts with
    | nil => simp [ContextCore.readLoop, Outcome.produced, Work.weight]
    | cons text rest => exact s.dispatch_burden text rest
  | routeUntagged => simp [Work.weight]
  | rearm => simp [ContextCore.rearm, left, Outcome.produced, Work.weight]
  | readLost =>
    have paid := lost .unexpectedResponse
    simp [ContextCore.readLost, Outcome.produced, connectionLost_armed, Work.weight]
    omega
  | readStop => simp [ContextCore.readStop, Outcome.produced, Work.weight]

/-- Both pumps have stopped in a drain, and only the descriptor has still to be closed. -/
def Closable (s : ContextCore) : Prop :=
  s.phase = .draining ∧ s.readRunning = false ∧ s.writeInFlight = false

theorem SameControl.closable {s t : ContextCore} (same : s.SameControl t) (closable : t.Closable) :
    s.Closable :=
  ⟨same.phase ▸ closable.1, same.readRunning ▸ closable.2.1, same.writeInFlight ▸ closable.2.2⟩

theorem maybeFinishClose_closes (s : ContextCore) : ¬ s.maybeFinishClose.Closable := by
  intro closable
  unfold maybeFinishClose at closable
  split at closable
  · exact Phase.noConfusion closable.1
  · next waits => exact waits closable

end ContextCore

def Work.finishes : Work → Bool
  | .maybeFinishClose | .connectionLost _ | .writeFailed .. | .writeLost .. => true
  | _ => false

def Finishing (core : ContextCore) (pending : List Work) : Prop :=
  core.Closable → ∃ w ∈ pending, w.finishes = true

namespace ContextCore

theorem postKick_control (s : ContextCore) : s.SameControl s.postKick.core := by
  unfold postKick
  split <;> exact ⟨rfl, rfl, rfl, rfl, rfl, rfl⟩

theorem connectionLost_finishes {s : ContextCore} {ec : ErrorCode}
    (alive : (s.connectionLost ec).core.phase ≠ .closed) :
    .maybeFinishClose ∈ (s.connectionLost ec).left := by
  unfold connectionLost at alive ⊢
  split at alive
  · contradiction
  · rw [if_neg (by assumption)]
    simp

theorem retire_finishes (abandoned : Bool) (retired : List OpId) :
    .maybeFinishClose ∈ retire abandoned retired := by
  simp [retire]

/-- Whoever stops the second pump, or leaves the open phase behind, goes on to close the
    descriptor. -/
theorem finishing {s : ContextCore} {sec : Section} {o : Outcome} (runs : sec.Runs s o)
    (closable : o.core.Closable) :
    (∃ w ∈ o.produced, w.finishes = true) ∨ s.Closable ∧ ∀ w ∈ sec.consumed, w.finishes = false := by
  have finish (member : .maybeFinishClose ∈ o.left) : (∃ w ∈ o.produced, w.finishes = true) ∨
      s.Closable ∧ ∀ w ∈ sec.consumed, w.finishes = false :=
      .inl ⟨_, List.mem_append_left _ member, rfl⟩
  have wait (earlier : s.Closable) (plain : ∀ w ∈ sec.consumed, w.finishes = false) :
      (∃ w ∈ o.produced, w.finishes = true) ∨ s.Closable ∧ ∀ w ∈ sec.consumed, w.finishes = false :=
    .inr ⟨earlier, plain⟩
  have alive : o.core.phase ≠ .closed := by simp [closable.1]
  cases runs with
  | flush => exact wait ((s.emit [.flushCalled]).postKick_control.closable closable) (by simp [Section.consumed])
  | cancel tag => exact wait ((s.cancelWith_controls tag none).1.closable closable) (by simp [Section.consumed])
  | requestStop op =>
    have same :=
      ((s.modify op fun c =>
      { c with stopSeen := true }).cancelWith_controls (s.cell op).tag (some op)).1
    exact wait (same.closable closable) (by simp [Section.consumed])
  | close =>
    by_cases phase : s.phase = .opened
    · exact finish (by simp [close, phase])
    · rw [close, if_pos phase] at closable
      exact wait closable (by simp [Section.consumed])
  | abandon =>
    by_cases phase : s.phase = .closed
    · rw [abandon, if_pos phase] at alive
      exact absurd phase alive
    · exact finish (by simp [abandon, phase])
  | reading choice result =>
    unfold readReceiver at finish closable
    split at closable
    · cases result <;> exact wait closable (by simp [Section.consumed, Work.finishes])
    · next ends => exact finish (by rw [if_neg ends]; exact List.mem_singleton_self _)
  | writeError batch ec => exact .inl ⟨_, List.mem_singleton_self _, rfl⟩
  | stopScheduled op =>
    exact wait ((completeStopped_agrees s op).control.closable closable) (by simp [Section.consumed,
      Work.finishes])
  | enqueueOperation op post =>
    exact wait ((s.enqueueOperation_controls op post).1.closable closable)
      (by simp [Section.consumed, Work.finishes])
  | postKick =>
      exact wait (s.postKick_control.closable closable) (by simp [Section.consumed, Work.finishes])
  | fail op ec =>
    exact wait ((fail_agrees s op ec).control.closable closable) (by simp [Section.consumed,
      Work.finishes])
  | onTagged op r =>
    exact wait ((onTagged_agrees s op r).control.closable closable) (by simp [Section.consumed,
      Work.finishes])
  | maybeFinishClose => exact absurd closable s.maybeFinishClose_closes
  | connectionLost ec => exact finish (connectionLost_finishes alive)
  | kick =>
    unfold ContextCore.kick at closable
    split at closable
    · exact wait closable (by simp [Section.consumed, Work.finishes])
    · next drains =>
      have opened : (s.newDrain.drain s.writeQueue).1.phase = .opened := by
        rw [(drain_agrees s.writeQueue s.newDrain).phase]
        simpa using (not_or.mp drains).1
      simp only at closable
      split at closable <;> exact absurd (opened.symm.trans closable.1) (by simp)
  | armWrite batch =>
    unfold ContextCore.armWrite at finish closable
    split at closable
    · next ends => exact finish (by rw [if_pos ends]; exact retire_finishes _ _)
    · next arms =>
      have opened : s.phase = .opened := by simpa using (not_or.mp arms).1
      exact absurd (opened.symm.trans closable.1) (by simp)
  | writeFailed ec retired =>
    cases gone : s.abandoned with
    | false => exact .inl ⟨.writeLost ec retired, by simp [ContextCore.writeFailed, gone, Outcome.produced], rfl⟩
    | true => exact finish (by simp [ContextCore.writeFailed, gone])
  | writeLost ec retired => exact finish (by simp [ContextCore.writeLost])
  | writeQuiet batch => exact finish (by simp [ContextCore.writeQuiet])
  | writeFlushed batch =>
    unfold ContextCore.writeFlushed at finish closable
    split at closable
    · next opened =>
      have phase := (flushLoop_agrees batch.number batch.ops s.unlatchWrite).phase
      exact absurd ((phase.trans opened).symm.trans closable.1) (by simp)
    · next ends => exact finish (by rw [if_neg ends]; exact retire_finishes _ _)
  | armRead =>
    unfold ContextCore.armRead at closable
    split at closable
    · exact absurd closable s.unlatchRead.maybeFinishClose_closes
    · next arms =>
      have opened : s.phase = .opened := by simpa using (not_or.mp arms).1
      exact absurd (opened.symm.trans closable.1) (by simp)
  | onReadFailed ec => exact .inl ⟨_, List.mem_singleton_self _, rfl⟩
  | readLoop texts =>
    exact wait ((s.readLoop_controls texts).1.closable closable) (by simp [Section.consumed,
      Work.finishes])
  | routeUntagged r =>
    exact wait ((routeUntagged_agrees s r).control.closable closable) (by simp [Section.consumed,
      Work.finishes])
  | rearm =>
    by_cases ready : s.phase = .opened ∧ s.suspendRead = false
    · rw [ContextCore.rearm, if_pos ready] at closable
      exact wait closable (by simp [Section.consumed, Work.finishes])
    · exact finish (by rw [ContextCore.rearm, if_neg ready]; exact List.mem_singleton_self _)
  | readLost => exact finish (List.mem_append_left _ (connectionLost_finishes alive))
  | readStop => exact finish (List.mem_singleton_self _)
  | _ => exact wait closable (by simp [Section.consumed, Work.finishes])

end ContextCore

namespace Finishing

variable {core : ContextCore} {pending : List Work}

theorem preserved {sec : Section} {others : List Work} {o : Outcome} (runs : sec.Runs core o)
    (consumed : pending.Perm (sec.consumed ++ others)) (finishing : Finishing core pending) :
    Finishing o.core (o.produced ++ others) := by
  intro closable
  rcases ContextCore.finishing runs closable with ⟨w, member, ends⟩ | ⟨earlier, plain⟩
  · exact ⟨w, List.mem_append_left _ member, ends⟩
  · obtain ⟨w, member, ends⟩ := finishing earlier
    rcases List.mem_append.mp (consumed.subset member) with own | other
    · simp [plain w own] at ends
    · exact ⟨w, List.mem_append_right _ other, ends⟩

theorem of_run {s : System} (reached : imapContext.Reachable s) : Finishing s.core s.pending :=
  (GuardedRun.of_reachable reached).invariant Finishing
    (fun _ _ _ perm finishing closable =>
      let ⟨w, member, ends⟩ := finishing closable
      ⟨w, perm.subset member, ends⟩)
    (fun closable => Phase.noConfusion closable.1)
    fun _ _ _ _ _ consumed finishing _ runs => finishing.preserved runs consumed

end Finishing

theorem Work.enabled (core : ContextCore) (w : Work) :
    ∃ choice o, (∀ texts, choice ≠ .data texts) ∧ w.run core choice = some o := by
  cases w with
  | reading => exact ⟨.eof, _, by simp, rfl⟩
  | writing batch => exact ⟨.done, _, by simp, rfl⟩
  | kickScheduled => exact ⟨.done, _, by simp, rfl⟩
  | stopScheduled op => exact ⟨.done, _, by simp, rfl⟩
  | _ => exact ⟨.go, _, by simp, rfl⟩

/-- The end of a context: the descriptor was closed, once, nothing is armed or under way, and no
    cell is left but those that were not taken from the queue. -/
structure WoundDown (s : System) : Prop where
  closed : s.core.phase = .closed
  once : s.core.log.count .descriptorClosed = 1
  quiet : s.pending = []
  cells : s.core.live.Perm s.core.writeQueue

namespace System

theorem resumes (s : System) (busy : s.pending ≠ []) :
    ∃ action t, s.Starts action ∧ s.step action = some t := by
  obtain ⟨w, member⟩ := List.exists_mem_of_ne_nil _ busy
  obtain ⟨thread, among, inside⟩ := List.mem_flatten.mp member
  obtain ⟨i, bound, rfl⟩ := List.getElem_of_mem among
  cases held : s.threads[i] with
  | nil => simp [held] at inside
  | cons first rest =>
    obtain ⟨choice, o, quiet, ran⟩ := first.enabled s.core
    refine ⟨.resume i choice, ⟨o.core, s.threads.set i (o.left ++ rest) ++ o.armed.map ([·])⟩, ?_, ?_⟩
    · cases choice <;> first | exact True.intro | exact absurd rfl (quiet _)
    simp [step, List.getElem?_eq_getElem bound, held, ran]

def rank (s : System) : Nat × Nat :=
  (s.pending.countP Work.isReading, burden s.pending + s.core.writeQueue.length)

theorem rank_falls {s t : System} {action : Action} (starts : s.Starts action)
    (left : s.core.phase ≠ .opened)
    (stepped : s.step action = some t) : Prod.Lex (· < ·) (· < ·) t.rank s.rank := by
  obtain ⟨sec, o, others, selected, ran, same, consumed, produced⟩ := step_section stepped
  cases action with
  | call => exact starts.elim
  | resume i choice =>
    obtain ⟨w, -, rfl⟩ := Option.map_eq_some_iff.mp selected
    have runs := Section.runs ran
    have unread : o.produced.countP Work.isReading = 0 :=
        List.countP_eq_zero.mpr fun v member reads => by
      cases v <;> simp [Work.isReading] at reads
      obtain ⟨_, _, _, _, _, same⟩ := ContextCore.incoming runs left member rfl
      cases same
    rw [rank, rank, produced.countP_eq, consumed.countP_eq, burden_perm produced,
      burden_perm consumed, same, List.countP_append, List.countP_append, unread, burden_append,
      burden_append]
    by_cases reading : w = .reading
    · subst reading
      exact .left _ _ (by simp [Section.consumed, Work.isReading])
    · have none : (Section.work w choice).consumed.countP Work.isReading = 0 := by
        cases w <;> simp [Section.consumed, Work.isReading] at reading ⊢
      have lower := ContextCore.falls runs left reading
      rw [none]
      refine .right _ ?_
      simp only [Section.consumed, burden_cons, burden_nil]
      omega

end System

/-- Once a context is not open any more, because it was closed or given up or has lost its
    connection, it comes to its end, whatever its threads do and whatever becomes of the operations
    in flight. But while a (UID) SEARCH is queued, the lines have to be legible. -/
theorem winding_down {s : System} (reached : imapContext.Reachable s) (left : s.core.phase ≠ .opened)
    (legible : s.core.Searches → LegibleAhead s.pending) :
    imapContext.Inevitable System.Starts System.Returns WoundDown s := by
  refine .of_rank (wellFounded_lt.prod_lex wellFounded_lt) System.rank (fun t =>
    imapContext.Reachable t ∧ t.core.phase ≠ .opened ∧
    (t.core.Searches → LegibleAhead t.pending)) ?_ ?_ ⟨reached, left, legible⟩
  · rintro t ⟨reached, left, -⟩ unfinished
    refine t.resumes fun quiet => unfinished ?_
    have latched := Latched.of_run (.of_reachable reached)
    have writing : t.core.writeInFlight = false := by simpa [quiet] using latched.write
    have reading : t.core.readRunning = false := by simpa [quiet] using latched.read
    have closed : t.core.phase = .closed := by
      cases phase : t.core.phase with
      | opened => exact absurd phase left
      | closed => rfl
      | draining =>
        obtain ⟨w, member, -⟩ := Finishing.of_run reached ⟨phase, reading, writing⟩
        simp [quiet] at member
    obtain ⟨earlier, shape, once⟩ := (ClosedLast.of_run (.of_reachable reached)).after closed
    have cells := (Custody.of_run (.of_reachable reached)).owned
    refine ⟨closed, ?_, quiet, ?_⟩
    · rw [count_transport rfl, shape, List.count_append, List.count_eq_zero_of_not_mem once]
      rfl
    · simpa [quiet] using cells.symm
  · rintro before action after ⟨reached, left, legible⟩ starts stepped
    obtain ⟨sec, o, others, -, ran, same, -, -⟩ := System.step_section stepped
    have still : o.core.phase ≠ .opened := fun opened => left ((Section.runs ran).controls.opens opened)
    have ahead := System.legible_ahead reached left starts stepped legible
    exact ⟨System.returns legible action, ⟨reached.next True.intro stepped, same ▸ still, ahead⟩,
      System.rank_falls starts left stepped⟩

theorem legible_search : Legible (ascii "* SEARCH 2 84") := by
  have parsed : Parser.parse (ascii "* SEARCH 2 84") =
      some (.untagged { kind := .search, payload := ascii "2 84" }) := by decide +kernel
  intro r same search
  cases parsed.symm.trans same
  decide +kernel

/-- `close()` between the read of a `* SEARCH` line and its dispatch, with the SEARCH on its way. -/
theorem winding_down_in_flight : ∃ s, s.core.phase = .draining ∧ s.core.Searches ∧
    .readLoop [ascii "* SEARCH 2 84"] ∈ s.pending ∧ s.core.writeInFlight = true ∧
    imapContext.Inevitable System.Starts System.Returns WoundDown s := by
  obtain ⟨s, reached, state⟩ := imapContext.reachable_of_trace
    (inFlight (.line (searchCommand (ascii "ALL"))) ++
      [Action.resume 1 (.data [ascii "* SEARCH 2 84"]), .call .close])
    (fun s => decide (s.core.phase = .draining ∧ s.core.writeInFlight = true ∧ s.core.writeQueue = [0] ∧
      (s.core.cell 0).wantsUntagged .search = true ∧ s.pending = [.readLoop [ascii "* SEARCH 2 84"],
        .writing ⟨1, [0]⟩, .maybeFinishClose, .dispose []])) (by decide +kernel)
  obtain ⟨draining, writing, queue, wants, pending⟩ := of_decide_eq_true state
  have searches : s.core.Searches := ⟨0, by simp [queue], wants⟩
  have ahead : LegibleAhead s.pending := by
    rw [pending]
    exact ⟨by simpa using legible_search, by simp⟩
  have loop : .readLoop [ascii "* SEARCH 2 84"] ∈ s.pending := by simp [pending]
  exact ⟨s, draining, searches, loop, writing, winding_down reached (by simp [draining]) fun _ => ahead⟩

end Bkmail
