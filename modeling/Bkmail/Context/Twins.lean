import Bkmail.Context.Spent
import Bkmail.Command.Mailbox
import Bkmail.Command.List

namespace Bkmail

deriving instance DecidableEq for Section

/-- The same work in two runs, of which one has cancelled a command: its cell is missing from the
    lists there, and a drain may have another number. -/
def Work.similar (t : OpId) : Work → Work → Bool
  | .dispose ops, .dispose ops' => ops'.filter (· != t) == ops.filter (· != t)
  | .writeFailed ec _, .writeFailed ec' _ => ec == ec'
  | .writeLost ec _, .writeLost ec' _ => ec == ec'
  | .armWrite batch, .armWrite batch' | .writing batch, .writing batch' | .writeQuiet batch,
      .writeQuiet batch'
  | .writeFlushed batch, .writeFlushed batch' => batch'.ops == batch.ops
  | w, w' => w == w'

def Section.similar (t : OpId) : Section → Section → Bool
  | .work w choice, .work w' choice' => w.similar t w' && choice == choice'
  | sec, sec' => sec == sec'

/-- What one of two runs may do alone: end the cell that was cancelled, and drain to no effect. -/
def Section.own (t : OpId) (s : ContextCore) : Section → Bool
  | .work (.fail op _) _ | .work (.onTagged op _) _ | .work (.stopScheduled op) _
  | .work (.postCompleteStopped op) _ => op == t
  | .work (.dispose ops) _ => ops.all (· == t)
  | .work .postKick _ | .work .kickScheduled _ | .work .kickGate _ => true
  | .work .kick _ => s.kickIdles
  | _ => false

/-- The command keeps no untagged data from another one that waits for the same, and no other gets
    its tag. -/
def Section.leaves (t : OpId) (s : ContextCore) : Section → Prop
  | .work (.routeUntagged r) _ => ContextCore.commandScoped r.kind = true →
    (s.writeQueue.find? fun op => (s.cell op).wantsUntagged r.kind) = some t →
      ∀ op ∈ s.writeQueue, (s.cell op).wantsUntagged r.kind = true → op = t
  | .work (.enqueueOperation op _) _ => ContextCore.lookup s.registry (s.cell op).tag ≠ some t
  | _ => True

instance (t : OpId) (s : ContextCore) (sec : Section) : Decidable (sec.leaves t s) := by
  unfold Section.leaves
  split <;> infer_instance

namespace Section

variable {t : OpId} {l r : ContextCore} {o o' : Outcome}

open ContextCore

theorem Runs.alike_self {sec : Section} (runs : sec.Runs l o) (own : sec.own t l = true) :
    Alike t l o.core := by
  cases runs with
  | fail op ec =>
    cases beq_iff_eq.mp own
    exact .fail_self l ec
  | onTagged op response =>
    cases beq_iff_eq.mp own
    exact .onTagged_self l response
  | stopScheduled op =>
    cases beq_iff_eq.mp own
    exact .completeStopped_self l
  | dispose ops =>
    apply Alike.dispose_self l
    simpa using List.all_eq_true.mp own
  | postKick => exact .postKick_self l
  | kickScheduled | kickRefused => exact { Alike.refl t l with }
  | kick => exact .kick_self own
  | postCompleteStopped | kickGate => exact .refl t l
  | _ => cases own

/-- One section in both runs. -/
theorem Runs.alike_same {sec : Section} (runs : sec.Runs l o) (runs' : sec.Runs r o')
    (alike : Alike t l r)
    (left : Aside t l) (right : Aside t r) (old : t < l.made)
    (owned : ∀ op post, sec = .work (.enqueueOperation op post) .go →
    op ≠ t ∧ op ∈ l.live ∧ op ∈ r.live)
    (leaves : sec.leaves t l) (leaves' : sec.leaves t r) : Alike t o.core o'.core := by
  have free (s : ContextCore) (aside : Aside t s) {tag : Tag}
    (leaves : ContextCore.lookup s.registry tag ≠ some t) :
      ∀ entry ∈ s.registry, entry.2 = t → entry.1 ≠ tag := by
    rintro entry member rfl rfl
    apply leaves
    cases found : ContextCore.lookup s.registry entry.1 with
    | none => exact absurd rfl (lookup_none found entry member)
    | some p =>
      have same := List.inj_on_of_nodup_map aside.keys (mem_of_lookup found) member rfl
      rw [← same]
  cases runs with
  | allocateTag => cases runs'; exact alike.allocateTag
  | submit => cases runs'; exact alike.attach old _ _ _ _ _
  | flush => cases runs'; exact (alike.unsaid [.flushCalled] [.flushCalled] rfl rfl).postKick
  | cancel => cases runs'; exact alike.cancelWith left right _ _
  | requestStop => cases runs'; exact alike.requestStop left right _
  | close => cases runs'; exact alike.close left right
  | abandon => cases runs'; exact alike.abandon
  | suspend => cases runs'; exact { alike with suspendRead := rfl }
  | reading => cases runs'; exact alike.readReceiver _ _
  | writeDone | writeError => cases runs'; exact alike.onWriteDone left right _ rfl
  | kickScheduled | kickRefused => cases runs'; exact { alike with }
  | stopScheduled => cases runs'; exact alike.completeStopped _
  | enqueueOperation op post =>
    cases runs'
    obtain ⟨other, live, live'⟩ := owned op post rfl
    exact alike.enqueueOperation left right post post other live live' (free l left leaves)
      (free r right leaves')
  | postKick => cases runs'; exact alike.postKick
  | fail => cases runs'; exact alike.fail _ _
  | onTagged => cases runs'; exact alike.onTagged _ _
  | dispose => cases runs'; exact alike.dispose rfl
  | maybeFinishClose => cases runs'; exact alike.maybeFinishClose
  | connectionLost | writeLost | readLost => cases runs'; exact alike.connectionLost _
  | kick => cases runs'; exact alike.kick left.written right.written
  | armWrite => cases runs'; exact alike.armWrite left right rfl
  | writeQuiet => cases runs'; exact alike.writeQuiet left right rfl
  | writeFlushed => cases runs'; exact alike.writeFlushed left right rfl
  | armRead => cases runs'; exact alike.armRead
  | readLoop => cases runs'; exact alike.readLoop left right _
  | routeUntagged => cases runs'; exact alike.routeUntagged left right leaves leaves'
  | rearm => cases runs'; exact alike.rearm
  | onReadFailed | readStop => cases runs'; exact alike.unlatchRead
  | postCompleteStopped | writeFailed | kickGate => cases runs'; exact alike

theorem Runs.alike {sec sec' : Section} (runs : sec.Runs l o) (runs' : sec'.Runs r o')
    (similar : sec.similar t sec' = true)
    (alike : Alike t l r) (left : Aside t l) (right : Aside t r) (old : t < l.made)
    (owned : ∀ op post, sec = .work (.enqueueOperation op post) .go →
    op ≠ t ∧ op ∈ l.live ∧ op ∈ r.live)
    (leaves : sec.leaves t l) (leaves' : sec'.leaves t r) : Alike t o.core o'.core := by
  unfold Section.similar at similar
  split at similar
  · next w choice w' choice' =>
    obtain ⟨kind, same⟩ := Bool.and_eq_true_iff.mp similar
    cases eq_of_beq same
    unfold Work.similar at kind
    split at kind
    · cases runs; cases runs'; exact alike.dispose (eq_of_beq kind)
    · cases runs; cases runs'; exact alike
    · cases eq_of_beq kind; cases runs; cases runs'; exact alike.connectionLost _
    · cases runs; cases runs'; exact alike.armWrite left right (eq_of_beq kind)
    · cases runs <;> cases runs' <;> exact alike.onWriteDone left right _ (eq_of_beq kind)
    · cases runs; cases runs'; exact alike.writeQuiet left right (eq_of_beq kind)
    · cases runs; cases runs'; exact alike.writeFlushed left right (eq_of_beq kind)
    · cases eq_of_beq kind
      exact runs.alike_same runs' alike left right old owned leaves leaves'
  · cases eq_of_beq similar
    exact runs.alike_same runs' alike left right old owned leaves leaves'

end Section

/-- Two runs with the same calls and the same answers of the environment. In the right one a command
    has been cancelled. -/
structure Twins where
  left : System := {}
  right : System := {}
  cancelled : Option OpId := none

inductive TwinAction where
  | both (left right : Action)
  | cancel (op : OpId) (call : Call)
  | left (action : Action)
  | right (action : Action)
  deriving DecidableEq, Repr

/-- `cancel(tag)`, or the stop token of the cell, for a command that is fully written and no
    IDLE. -/
def Call.withdraws (s : ContextCore) (op : OpId) (c : Call) : Bool :=
  s.phase == .opened && s.writeQueue.contains op && (s.cell op).isWritten &&
    (s.cell op).cancelWritten.isNone && (c.cancels s).any fun (tag, expected) =>
    ContextCore.lookup s.registry tag == some op && expected.all (· == op)

namespace Twins

def step (s : Twins) : TwinAction → Option Twins
  | .both a b =>
    match s.left.section? a, s.right.section? b with
    | some sec, some sec' =>
      if s.cancelled.elim (sec == sec') (sec.similar · sec') then
        (s.left.step a).bind fun left => (s.right.step b).map fun right => { s with left, right }
      else none
    | _, _ => none
  | .cancel op call =>
    if s.cancelled.isNone && call.withdraws s.right.core op then
      (s.right.step (.call call)).map fun right => { s with right, cancelled := some op }
    else none
  | .left a =>
    match s.cancelled, s.left.section? a with
    | some t, some sec => if sec.own t s.left.core then (s.left.step a).map fun left =>
        { s with left } else none
    | _, _ => none
  | .right a =>
    match s.cancelled, s.right.section? a with
    | some t, some sec => if sec.own t s.right.core then (s.right.step a).map fun right =>
        { s with right } else none
    | _, _ => none

/-- No data of the cancelled command is dispatched any more that another one would take for its
    own. -/
def Undisturbed (s : Twins) : TwinAction → Prop
  | .both a _ => ∀ t ∈ s.cancelled, ∀ sec ∈ s.left.section? a, sec.leaves t s.left.core
  | _ => True

instance (s : Twins) : DecidablePred s.Undisturbed
  | .both a _ =>
      inferInstanceAs (Decidable (∀ t ∈ s.cancelled, ∀ sec ∈ s.left.section? a,
      sec.leaves t s.left.core))
  | .cancel .. | .left _ | .right _ => inferInstanceAs (Decidable True)

end Twins

def twins : Automaton.Machine Twins TwinAction := ⟨{}, Twins.step⟩

def Event.answers (op : OpId) : Event → Bool
  | .terminal cell _ | .delivered cell _ => cell == op
  | _ => false

/-- The end of an operation, and the untagged responses that its result is made from. -/
def ContextCore.result (s : ContextCore) (op : OpId) : List Event × List UntaggedResponse :=
  (s.log.filter (Event.answers op), (s.cell op).absorbed)

def ContextCore.mailboxes (s : ContextCore) (op : OpId) : List MailboxEntry :=
  (s.cell op).absorbed.foldl ListCommand.onUntagged []

theorem ContextCore.Alike.result {t : OpId} {l r : ContextCore} (alike : Alike t l r) {op : OpId}
    (other : op ≠ t) :
    r.result op = l.result op := by
  have inside : (fun event => Event.answers op event && Event.tells t event) = Event.answers op := by
    funext event
    cases event with
    | terminal cell | delivered cell =>
      by_cases same : cell = op <;> simp [Event.answers, Event.tells, same, other]
    | _ => rfl
  have told := congrArg (List.filter (Event.answers op)) alike.told
  rw [List.filter_filter, List.filter_filter, inside] at told
  rw [ContextCore.result, ContextCore.result, told, alike.cell op other]

/-- A cancellation takes a written command out of the queue, and tells no other of it. -/
theorem Aside.withdrawn {t : OpId} {s : ContextCore} (aside : Aside t s) {c : Call} {o : Outcome}
    (withdraws : c.withdraws s t = true) (ran : c.run s = some o) :
    s.Alike t o.core ∧ o.core.writeQueue = s.writeQueue.erase t := by
  simp only [Call.withdraws, Bool.and_eq_true, beq_iff_eq] at withdraws
  obtain ⟨⟨⟨⟨opened, queued⟩, -⟩, -⟩, hits⟩ := withdraws
  have queued : t ∈ s.writeQueue := by simpa using queued
  have hit {u : ContextCore} (same : Aside t u) (opened : u.phase = .opened)
    (queued : t ∈ u.writeQueue) (tag : Tag)
      (expected : Option OpId) (found : ContextCore.lookup u.registry tag = some t)
        (itself : expected.all (u.sameAddress t) = true) :
      u.Alike t (u.cancelWith tag expected).core ∧ (u.cancelWith tag expected).core.writeQueue =
      u.writeQueue.erase t := by
    have entry := ContextCore.mem_of_lookup found
    rcases ContextCore.cancelWith_hit opened found itself (same.deref_eq (same.held opened _ entry))
      (same.queueFind_eq queued)
        same.unstaged with ⟨-, core, -⟩ | ⟨staying, -⟩
    · rw [core]
      exact ⟨{ ContextCore.Alike.refl t u with
        queue := erase_self_without u.writeQueue t
        registry := ContextCore.Alike.erase_own same.keys entry }, rfl⟩
    · simp [Operation.withdrawable, same.parked, same.written, same.plain] at staying
  cases c with
  | cancel tag =>
    cases ran
    simp only [Call.cancels, Option.any_some, Bool.and_eq_true, beq_iff_eq] at hits
    exact hit aside opened queued tag none hits.1 rfl
  | requestStop op =>
    simp only [Call.cancels, Option.any_some, Option.all_some, Bool.and_eq_true, beq_iff_eq] at hits
    obtain ⟨found, rfl⟩ := hits
    simp only [Call.run] at ran
    split at ran
    · cases ran
      have noted := ContextCore.Alike.modify_self (t := op) s (fun c =>
        { c with stopSeen := true }) fun _ => ⟨rfl, rfl, rfl, rfl⟩
      obtain ⟨alike, queue⟩ :=
        hit (aside.noted op) opened queued _ (some op) found (by simp [ContextCore.sameAddress])
      exact ⟨noted.trans alike, queue⟩
    · cases ran
  | _ => cases hits

structure Apart (s : Twins) (t : OpId) : Prop where
  alike : s.left.core.Alike t s.right.core
  left : Spent t s.left.core s.left.pending
  right : Spent t s.right.core s.right.pending
  gone : t ∉ s.right.core.writeQueue

structure Twinned (s : Twins) : Prop where
  left : imapContext.Reachable s.left
  right : imapContext.Reachable s.right
  same : s.cancelled = none → s.right.core = s.left.core
  apart : ∀ t, s.cancelled = some t → Apart s t

theorem Spent.step {t : OpId} {s u : System} {a : Action} (reached : imapContext.Reachable s)
    (stepped : s.step a = some u)
    (spent : Spent t s.core s.pending) : Spent t u.core u.pending := by
  obtain ⟨sec, o, others, -, ran, core, consumed, produced⟩ := System.step_section stepped
  have run := GuardedRun.of_reachable reached
  rw [core]
  exact (spent.preserved (Section.runs ran) consumed (.of_run run) (.of_run run) (.of_run run)
    (.of_run run)).permuted produced.symm

theorem Spent.stays_gone {t : OpId} {s u : System} {a : Action} (reached : imapContext.Reachable s)
    (stepped : s.step a = some u) (spent : Spent t s.core s.pending)
    (gone : t ∉ s.core.writeQueue) : t ∉ u.core.writeQueue := by
  obtain ⟨sec, o, others, -, ran, core, consumed, -⟩ := System.step_section stepped
  have enlisted := (Grounded.of_run (.of_reachable reached)).enlisted
  rw [core]
  rcases (Section.runs ran).enqueues with ⟨-, fewer⟩ | ⟨op, post, rfl, -, -, fewer⟩
  · exact fun queued => gone (fewer.subset queued)
  · intro queued
    rcases List.mem_append.mp (fewer.subset queued) with old | new
    · exact gone old
    · have same := List.mem_singleton.mp new
      exact enlisted.once t spent.enqueued post (same ▸ consumed.symm.subset List.mem_cons_self)

theorem Section.similar_enqueue {t op : OpId} {post : Bool} {sec : Section}
    (similar : Section.similar t (.work (.enqueueOperation op post) .go) sec = true) :
    sec = .work (.enqueueOperation op post) .go := by
  cases sec with
  | call c => cases similar
  | work w choice =>
    obtain ⟨kind, same⟩ := Bool.and_eq_true_iff.mp similar
    cases eq_of_beq same
    have same : Work.enqueueOperation op post = w := by cases w <;> exact eq_of_beq kind
    rw [same]

theorem Section.leaves_gone {t : OpId} {s : ContextCore} (gone : t ∉ s.writeQueue)
    (aside : Aside t s) (sec : Section) :
    sec.leaves t s := by
  unfold Section.leaves
  split
  · exact fun _ found => absurd (List.mem_of_find?_eq_some found) gone
  · exact fun found => gone (aside.here _ (ContextCore.mem_of_lookup found) rfl)
  · exact True.intro

namespace Twinned

variable {s after : Twins}

theorem both {a b : Action} (twinned : Twinned s) (undisturbed : s.Undisturbed (.both a b))
    (stepped : s.step (.both a b) = some after) : Twinned after := by
  simp only [Twins.step] at stepped
  split at stepped
  · next sec sec' selected selected' =>
    split at stepped
    · next similar =>
      obtain ⟨left, stepL, stepped⟩ := Option.bind_eq_some_iff.mp stepped
      obtain ⟨right, stepR, rfl⟩ := Option.map_eq_some_iff.mp stepped
      have reachedL : imapContext.Reachable left := twinned.left.next True.intro stepL
      have reachedR : imapContext.Reachable right := twinned.right.next True.intro stepR
      obtain ⟨secL, oL, othersL, hereL, ranL, coreL, consumedL, -⟩ := System.step_section stepL
      obtain ⟨secR, oR, othersR, hereR, ranR, coreR, consumedR, -⟩ := System.step_section stepR
      cases selected.symm.trans hereL
      cases selected'.symm.trans hereR
      refine ⟨reachedL, reachedR, fun none => ?_, fun t cancelled => ?_⟩
      · have same := twinned.same none
        rw [none] at similar
        cases eq_of_beq similar
        rw [same, ranL] at ranR
        cases ranR
        exact coreR.trans coreL.symm
      · have apart := twinned.apart t cancelled
        have runL := GuardedRun.of_reachable twinned.left
        have runR := GuardedRun.of_reachable twinned.right
        have groundedL := Grounded.of_run runL
        have groundedR := Grounded.of_run runR
        have asideR := apart.right.aside runR
        rw [cancelled] at similar
        refine ⟨?_, apart.left.step twinned.left stepL, apart.right.step twinned.right stepR,
          apart.right.stays_gone twinned.right stepR apart.gone⟩
        rw [coreL, coreR]
        apply (Section.runs ranL).alike (Section.runs ranR) similar apart.alike
          (apart.left.aside runL) asideR apart.left.made
        · rintro op post rfl
          cases Section.similar_enqueue similar
          have pendsL : .enqueueOperation op post ∈ s.left.pending :=
            consumedL.symm.subset List.mem_cons_self
          have pendsR : .enqueueOperation op post ∈ s.right.pending :=
            consumedR.symm.subset List.mem_cons_self
          refine ⟨?_, groundedL.custody.owned_live pendsL (List.mem_singleton.mpr rfl),
            groundedR.custody.owned_live pendsR (List.mem_singleton.mpr rfl)⟩
          rintro rfl
          exact groundedL.enlisted.once op apart.left.enqueued post pendsL
        · exact undisturbed t cancelled sec selected
        · exact Section.leaves_gone apart.gone asideR sec'
    · cases stepped
  · cases stepped

theorem cancel {op : OpId} {c : Call} (twinned : Twinned s)
    (stepped : s.step (.cancel op c) = some after) :
    Twinned after := by
  simp only [Twins.step] at stepped
  split at stepped
  · next allowed =>
    obtain ⟨alone, withdraws⟩ := Bool.and_eq_true_iff.mp allowed
    obtain ⟨right, stepR, rfl⟩ := Option.map_eq_some_iff.mp stepped
    have same := twinned.same (Option.isNone_iff_eq_none.mp alone)
    have runL := GuardedRun.of_reachable twinned.left
    have runR := GuardedRun.of_reachable twinned.right
    have queued : op ∈ s.right.core.writeQueue ∧ (s.right.core.cell op).isWritten = true ∧
        (s.right.core.cell op).cancelWritten = none := by
      simp only [Call.withdraws, Bool.and_eq_true, Option.isNone_iff_eq_none] at withdraws
      exact ⟨by simpa using withdraws.1.1.1.2, withdraws.1.1.2, withdraws.1.2⟩
    obtain ⟨queued, written, plain⟩ := queued
    have spentR := Spent.of_written runR queued written plain
    have spentL : Spent op s.left.core s.left.pending :=
      Spent.of_written runL (same ▸ queued) (same ▸ written) (same ▸ plain)
    have moved : imapContext.step s.right (.call c) = some right := stepR
    have reached : imapContext.Reachable right := twinned.right.next True.intro moved
    have spent := spentR.step twinned.right stepR
    obtain ⟨o, ran, rfl⟩ := Option.map_eq_some_iff.mp stepR
    obtain ⟨alike, queue⟩ := (spentR.aside runR).withdrawn withdraws ran
    refine ⟨twinned.left, reached, fun none => (by cases none), ?_⟩
    intro t cancelled
    cases cancelled
    refine ⟨same ▸ alike, spentL, spent, ?_⟩
    change op ∉ o.core.writeQueue
    rw [queue]
    exact (Grounded.of_run runR).custody.nodup_queue.not_mem_erase
  · cases stepped

theorem left_alone {a : Action} (twinned : Twinned s) (stepped : s.step (.left a) = some after) :
    Twinned after := by
  simp only [Twins.step] at stepped
  split at stepped
  · next t sec cancelled selected =>
    split at stepped
    · next own =>
      obtain ⟨left, stepL, rfl⟩ := Option.map_eq_some_iff.mp stepped
      have apart := twinned.apart t cancelled
      obtain ⟨secL, o, others, here, ran, core, -, -⟩ := System.step_section stepL
      cases selected.symm.trans here
      refine ⟨twinned.left.next True.intro stepL, twinned.right, fun none =>
        (by simp [cancelled] at none), fun u same => ?_⟩
      cases cancelled.symm.trans same
      have alone := (Section.runs ran).alike_self own
      exact ⟨core ▸ alone.symm.trans apart.alike, apart.left.step twinned.left stepL,
        apart.right, apart.gone⟩
    · cases stepped
  · cases stepped

theorem right_alone {a : Action} (twinned : Twinned s) (stepped : s.step (.right a) = some after) :
    Twinned after := by
  simp only [Twins.step] at stepped
  split at stepped
  · next t sec cancelled selected =>
    split at stepped
    · next own =>
      obtain ⟨right, stepR, rfl⟩ := Option.map_eq_some_iff.mp stepped
      have apart := twinned.apart t cancelled
      obtain ⟨secR, o, others, here, ran, core, -, -⟩ := System.step_section stepR
      cases selected.symm.trans here
      refine ⟨twinned.left, twinned.right.next True.intro stepR, fun none =>
        (by simp [cancelled] at none), fun u same => ?_⟩
      cases cancelled.symm.trans same
      have alone := (Section.runs ran).alike_self own
      exact ⟨core ▸ apart.alike.trans alone, apart.left, apart.right.step twinned.right stepR,
        apart.right.stays_gone twinned.right stepR apart.gone⟩
    · cases stepped
  · cases stepped

theorem initial : Twinned {} :=
  ⟨.start, .start, fun _ => rfl, fun _ none => by cases none⟩

theorem of_run (run : twins.Guarded Twins.Undisturbed s) : Twinned s :=
  run.invariant Twinned initial
    fun _ _ action _ twinned undisturbed stepped => by
      cases action with
      | both => exact twinned.both undisturbed stepped
      | cancel => exact twinned.cancel stepped
      | left => exact twinned.left_alone stepped
      | right => exact twinned.right_alone stepped

end Twinned

/-- A cancelled command changes no other command's result, as long as none takes the rest of its
    data. -/
theorem cancellation_transparent {s : Twins} (run : twins.Guarded Twins.Undisturbed s) {t : OpId}
    (cancelled : s.cancelled = some t) (op : OpId) (other : op ≠ t) :
    s.right.core.result op = s.left.core.result op :=
  ((Twinned.of_run run).apart t cancelled).alike.result other

def TwinAction.same (a : Action) : TwinAction := .both a a

def listsWritten : List TwinAction :=
  [.resume 0 .go, .call .allocateTag,
    .call (.submit (tagText 1) (.line (listCommand [] (ascii "a"))) 100 true), .resume 3 .go,
    .call .allocateTag, .call (.submit (tagText 2) (.line (listCommand [] (ascii "b"))) 101 true),
    .resume 5 .go, .call .flush, .resume 7 .done, .resume 7 .go, .resume 7 .go, .resume 7 .go,
    .resume 8 .done, .resume 8 .go, .resume 8 .go].map .same

def firstCancelled : TwinAction := .cancel 0 (.cancel (tagText 1))

def rowDispatched : List TwinAction :=
  [.resume 1 (.data [ascii "* LIST () \"/\" a", ascii "a0001 OK done", ascii "* LIST () \"/\" b",
    ascii "a0002 OK done"]), .resume 1 .go, .resume 1 .go].map .same

def repliesDispatched : List TwinAction :=
  [.same (.resume 1 .go), .left (.resume 1 .go), .left (.resume 1 .go), .same (.resume 1 .go),
    .same (.resume 1 .go), .same (.resume 1 .go), .same (.resume 1 .go)]

/-- The first LIST is cancelled when its row is through. -/
theorem cancellation_transparent_list : ∃ s, twins.Guarded Twins.Undisturbed s ∧ s.cancelled = some 0 ∧
    .delivered 1 (.value none) ∈ s.left.core.log ∧ s.right.core.result 1 = s.left.core.result 1 := by
  obtain ⟨s, run, here⟩ := twins.guarded_of_trace (fun s action => decide (s.Undisturbed action))
    (listsWritten ++ rowDispatched ++ firstCancelled :: repliesDispatched)
    (fun s => decide (s.cancelled = some 0 ∧ .delivered 1 (.value none) ∈ s.left.core.log))
    (fun _ _ permitted => of_decide_eq_true permitted) (by decide)
  obtain ⟨cancelled, told⟩ := of_decide_eq_true here
  exact ⟨s, run, cancelled, told, cancellation_transparent run cancelled 1 (by decide)⟩

/-- The first LIST is cancelled before its row comes, and the second delivers the row. -/
theorem cancellation_leaks : ¬ ∀ (s : Twins) (t op : OpId), twins.Reachable s →
    s.cancelled = some t → op ≠ t → .delivered op (.value none) ∈ s.left.core.log →
    .delivered op (.value none) ∈ s.right.core.log →
    s.right.core.mailboxes op = s.left.core.mailboxes op := by
  intro claimed
  obtain ⟨s, reached, here⟩ := twins.reachable_of_trace
    (listsWritten ++ firstCancelled :: rowDispatched ++ repliesDispatched)
    (fun s => decide (s.cancelled = some 0 ∧ .delivered 1 (.value none) ∈ s.left.core.log ∧
      .delivered 1 (.value none) ∈ s.right.core.log ∧ s.right.core.mailboxes 1 ≠
      s.left.core.mailboxes 1)) (by decide)
  obtain ⟨cancelled, told, told', differ⟩ := of_decide_eq_true here
  exact differ (claimed s 0 1 reached cancelled (by decide) told told')

end Bkmail
