import Bkmail.Context.Silence
import Mathlib.Data.List.Find
import Mathlib.Data.Option.Basic

namespace Bkmail

def Event.tells (t : OpId) : Event → Bool
  | .terminal op _ | .delivered op _ => op != t
  | _ => false

theorem find_filter {α : Type} (p q : α → Bool) {xs : List α}
    (one : ∀ x ∈ xs, ∀ y ∈ xs, p x → p y → x = y) :
    (xs.find? p).filter q = (xs.filter q).find? p := by
  induction xs with
  | nil => rfl
  | cons x xs ih =>
    have rest := ih fun y member z member' => one y (.tail _ member) z (.tail _ member')
    cases found : p x with
    | false => cases kept : q x <;> simp [found, kept, rest]
    | true =>
      cases kept : q x with
      | true => simp [found, kept]
      | false =>
        have none : (xs.filter q).find? p = none := by
          apply List.find?_eq_none.mpr
          intro y member again
          obtain ⟨inside, stays⟩ := List.mem_filter.mp member
          cases one x List.mem_cons_self y (.tail _ inside) found again
          simp [kept] at stays
        simp [found, kept, none]

theorem find_without {p q : OpId → Bool} {ops : List OpId}
    (passes : ∀ op, ops.find? p = some op → q op = true) :
    (ops.filter q).find? p = ops.find? p := by
  induction ops with
  | nil => rfl
  | cons op ops ih =>
    cases found : p op with
    | false =>
      have rest := ih fun other finds => passes other (by simpa [found] using finds)
      cases kept : q op <;> simp [found, kept, rest]
    | true =>
      have kept := passes op (by simp [found])
      simp [found, kept]

theorem erase_self_without (ops : List OpId) (t : OpId) :
    (ops.erase t).filter (· != t) = ops.filter (· != t) := by
  induction ops with
  | nil => rfl
  | cons op ops ih =>
    by_cases same : op = t
    · subst same
      simp
    · rw [List.erase_cons_tail (by simpa using same)]
      simp [same, ih]

theorem erase_without {ops : List OpId} {t op : OpId} (other : op ≠ t) :
    (ops.erase op).filter (· != t) = (ops.filter (· != t)).erase op := by
  induction ops with
  | nil => rfl
  | cons first ops ih =>
    by_cases same : first = op
    · subst same
      simp [other]
    · rw [List.erase_cons_tail (by simpa using same)]
      by_cases gone : first = t
      · simp [gone, ih]
      · simp [gone, ih, List.erase_cons_tail (show (first == op) ≠ true by simpa using same)]

namespace ContextCore

def kickIdles (s : ContextCore) : Bool :=
  s.phase != .opened || s.writeInFlight || (s.reached s.writeQueue).isEmpty

theorem drain_nothing {s : ContextCore} {ops : List OpId} (none : s.reached ops = []) :
    s.drain ops = (s, []) := by
  induction ops with
  | nil => rfl
  | cons op ops ih =>
    rw [reached] at none
    rw [drain]
    by_cases written : (s.cell op).isWritten = true
    · rw [if_pos written] at none ⊢
      exact ih none
    · rw [if_neg written] at none ⊢
      by_cases empty : (s.cell op).nextSegment = []
      · rw [if_pos empty] at none ⊢
        by_cases awaits : (s.cell op).awaitsContinuation = true
        · rw [if_pos awaits]
        · rw [if_neg awaits] at none ⊢
          exact ih none
      · rw [if_neg empty] at none
        split at none <;> cases none

def flushTurn (number : Nat) (s : ContextCore) (p : OpId) : ContextCore :=
  match s.queueFind p with
  | none => s
  | some op =>
    if ((s.flushOne number op).cell op).detached && ((s.flushOne number op).cell op).isWritten then
      ((s.flushOne number op).extractFromQueueLocked op).1
    else s.flushOne number op

theorem flushLoop_turns (number : Nat) (ops : List OpId) (s : ContextCore) :
    (s.flushLoop number ops).1 = ops.foldl (flushTurn number) s := by
  induction ops generalizing s with
  | nil => rfl
  | cons p ops ih =>
    rw [flushLoop_cons, List.foldl_cons, flushTurn]
    cases s.queueFind p with
    | none => exact ih s
    | some op =>
      simp only
      split <;> exact ih _

theorem flushTurn_agrees (number : Nat) (s : ContextCore) (p : OpId) :
    s.Agrees (flushTurn number s p) := by
  rw [flushTurn]
  split
  · exact .refl s
  · split
    · exact (flushOne_agrees s number _).trans (extract_agrees _ _)
    · exact flushOne_agrees s number _

theorem flushTurn_sublist (number : Nat) (s : ContextCore) (p : OpId) :
    (flushTurn number s p).writeQueue.Sublist s.writeQueue := by
  rw [flushTurn]
  split
  · exact .refl _
  · split
    · exact flushOne_queue s number _ ▸ extract_sublist _ _
    · exact flushOne_queue s number _ ▸ .refl _

theorem flushTurn_awaits (number : Nat) (s : ContextCore) (p op : OpId) :
    ((flushTurn number s p).cell op).awaitsContinuation = (s.cell op).awaitsContinuation := by
  have flushed (hit : OpId) :
      ((s.flushOne number hit).cell op).awaitsContinuation = (s.cell op).awaitsContinuation := by
    rw [flushOne_cell]
    split
    · next same => exact same ▸ (s.cell hit).awaitsContinuation_flushed
    · rfl
  rw [flushTurn]
  split
  · rfl
  · split
    · rw [extract_eq]
      exact flushed _
    · exact flushed _

theorem found_alike {t : OpId} {found found' : Option OpId}
    (same : found'.filter (· != t) = found.filter (· != t)) :
    (∃ op, op ≠ t ∧ found = some op ∧ found' = some op) ∨
      (found = none ∨ found = some t) ∧ (found' = none ∨ found' = some t) := by
  have kept (op : OpId) : Option.filter (· != t) (some op) = if op = t then none else some op := by
    by_cases gone : op = t <;> simp [Option.filter_some, gone]
  cases found with
  | none =>
    cases found' with
    | none => exact .inr ⟨.inl rfl, .inl rfl⟩
    | some op =>
      rw [kept] at same
      split at same
      · next gone => exact .inr ⟨.inl rfl, .inr (gone ▸ rfl)⟩
      · cases same
  | some op =>
    by_cases gone : op = t
    · subst gone
      cases found' with
      | none => exact .inr ⟨.inr rfl, .inl rfl⟩
      | some op' =>
        rw [kept, kept, if_pos rfl] at same
        split at same
        · next gone => exact .inr ⟨.inr rfl, .inr (gone ▸ rfl)⟩
        · cases same
    · cases found' with
      | none =>
        rw [kept, if_neg gone] at same
        cases same
      | some op' =>
        rw [kept, kept, if_neg gone] at same
        split at same
        · cases same
        · cases same
          exact .inl ⟨op, gone, rfl, rfl⟩

/-- Two cores that no operation but one can tell apart. The posted drain, the staging buffer and the
    number of the drain are left out: no operation can tell them either. -/
structure Alike (t : OpId) (l r : ContextCore) : Prop where
  phase : r.phase = l.phase
  abandoned : r.abandoned = l.abandoned
  tagCounter : r.tagCounter = l.tagCounter
  tags : r.tags = l.tags
  writeInFlight : r.writeInFlight = l.writeInFlight
  target : r.continuationTarget = l.continuationTarget
  readRunning : r.readRunning = l.readRunning
  suspendRead : r.suspendRead = l.suspendRead
  byeReceived : r.byeReceived = l.byeReceived
  made : r.made = l.made
  cell : ∀ op, op ≠ t → r.cell op = l.cell op
  fixed : (l.cell t).Fixed (r.cell t)
  queue : r.writeQueue.filter (· != t) = l.writeQueue.filter (· != t)
  registry : r.registry.filter (·.2 != t) = l.registry.filter (·.2 != t)
  live : r.live.filter (· != t) = l.live.filter (· != t)
  told : r.log.filter (Event.tells t) = l.log.filter (Event.tells t)

/-- No two of some cells are at one address. -/
def Spread (s : ContextCore) (ops : List OpId) : Prop :=
  ∀ p ∈ ops, ∀ q ∈ ops, (s.cell p).addr = (s.cell q).addr → p = q

theorem Spread.sublist {s u : ContextCore} {ops fewer : List OpId} (spread : Spread s ops)
    (agrees : s.Agrees u)
    (sublist : fewer.Sublist ops) : Spread u fewer := by
  intro p member q member' same
  rw [(agrees.cells p).addr, (agrees.cells q).addr] at same
  exact spread p (sublist.subset member) q (sublist.subset member') same

theorem Spread.find_eq {s : ContextCore} {ops : List OpId} {p : OpId} (spread : Spread s ops)
    (member : p ∈ ops) :
    ops.find? (s.sameAddress p) = some p := by
  cases found : ops.find? (s.sameAddress p) with
  | none =>
    have absent := List.find?_eq_none.mp found p member
    simp [ContextCore.sameAddress] at absent
  | some q =>
    have same := List.find?_some found
    rw [spread p member q (List.mem_of_find?_eq_some found) (by simpa [ContextCore.sameAddress]
      using same)]

namespace Alike

variable {t : OpId} {l m r : ContextCore}

theorem refl (t : OpId) (s : ContextCore) : Alike t s s :=
  ⟨rfl, rfl, rfl, rfl, rfl, rfl, rfl, rfl, rfl, rfl, fun _ _ => rfl, .refl _, rfl, rfl, rfl, rfl⟩

theorem trans (first : Alike t l m) (second : Alike t m r) : Alike t l r where
  phase := second.phase.trans first.phase
  abandoned := second.abandoned.trans first.abandoned
  tagCounter := second.tagCounter.trans first.tagCounter
  tags := second.tags.trans first.tags
  writeInFlight := second.writeInFlight.trans first.writeInFlight
  target := second.target.trans first.target
  readRunning := second.readRunning.trans first.readRunning
  suspendRead := second.suspendRead.trans first.suspendRead
  byeReceived := second.byeReceived.trans first.byeReceived
  made := second.made.trans first.made
  cell op other := (second.cell op other).trans (first.cell op other)
  fixed := first.fixed.trans second.fixed
  queue := second.queue.trans first.queue
  registry := second.registry.trans first.registry
  live := second.live.trans first.live
  told := second.told.trans first.told

theorem symm (alike : Alike t l r) : Alike t r l where
  phase := alike.phase.symm
  abandoned := alike.abandoned.symm
  tagCounter := alike.tagCounter.symm
  tags := alike.tags.symm
  writeInFlight := alike.writeInFlight.symm
  target := alike.target.symm
  readRunning := alike.readRunning.symm
  suspendRead := alike.suspendRead.symm
  byeReceived := alike.byeReceived.symm
  made := alike.made.symm
  cell op other := (alike.cell op other).symm
  fixed := ⟨alike.fixed.addr.symm, alike.fixed.tag.symm, alike.fixed.request.symm,
    alike.fixed.callbackPath.symm⟩
  queue := alike.queue.symm
  registry := alike.registry.symm
  live := alike.live.symm
  told := alike.told.symm

theorem addr (alike : Alike t l r) (op : OpId) : (r.cell op).addr = (l.cell op).addr := by
  by_cases same : op = t
  · rw [same, alike.fixed.addr]
  · rw [alike.cell op same]

theorem tag (alike : Alike t l r) (op : OpId) : (r.cell op).tag = (l.cell op).tag := by
  by_cases same : op = t
  · rw [same, alike.fixed.tag]
  · rw [alike.cell op same]

theorem sameAddress (alike : Alike t l r) (p q : OpId) : r.sameAddress p q = l.sameAddress p q := by
  simp only [ContextCore.sameAddress, alike.addr]

theorem emit (alike : Alike t l r) {events events' : List Event}
    (same : events'.filter (Event.tells t) = events.filter (Event.tells t)) :
    Alike t (l.emit events) (r.emit events') :=
  { alike with told := by simp [alike.told, same] }

theorem unsaid (alike : Alike t l r) (events events' : List Event)
    (silent : events.filter (Event.tells t) = [])
    (silent' : events'.filter (Event.tells t) = []) : Alike t (l.emit events) (r.emit events') :=
  alike.emit (silent'.trans silent.symm)

theorem emit_self (s : ContextCore) (events : List Event)
    (silent : events.filter (Event.tells t) = []) :
    Alike t s (s.emit events) :=
  { refl t s with told := by simp [silent] }

theorem modify (alike : Alike t l r) {op : OpId} (other : op ≠ t) (change : Operation → Operation) :
    Alike t (l.modify op change) (r.modify op change) := by
  refine { alike with cell := fun i apart => ?_, fixed := ?_ }
  · by_cases same : i = op
    · subst same
      simp [alike.cell i apart]
    · simpa [same] using alike.cell i apart
  · simpa [other.symm] using alike.fixed

theorem modify_self (s : ContextCore) (change : Operation → Operation)
    (fixed : ∀ c : Operation, c.Fixed (change c)) :
    Alike t s (s.modify t change) :=
  { refl t s with
    cell := fun op other => by simp [other]
    fixed := by simpa using fixed (s.cell t) }

theorem change (alike : Alike t l r) (op : OpId) (change : Operation → Operation)
    (fixed : ∀ c : Operation, c.Fixed (change c)) :
    Alike t (l.modify op change) (r.modify op change) := by
  by_cases same : op = t
  · subst same
    exact ((modify_self l change fixed).symm.trans alike).trans (modify_self r change fixed)
  · exact alike.modify same change

theorem unlatchWrite (alike : Alike t l r) : Alike t l.unlatchWrite r.unlatchWrite :=
  { alike with writeInFlight := rfl }

theorem unlatchRead (alike : Alike t l r) : Alike t l.unlatchRead r.unlatchRead :=
  { alike with readRunning := rfl }

theorem erase_filter (registry : List (Tag × OpId)) (tag : Tag) :
    (ContextCore.erase registry tag).filter (·.2 != t) =
    ContextCore.erase (registry.filter (·.2 != t)) tag := by
  rw [ContextCore.erase, ContextCore.erase, List.filter_comm]

theorem unregister (alike : Alike t l r) (tag : Tag) :
    Alike t (l.unregister tag) (r.unregister tag) := by
  refine { alike with registry := ?_ }
  change (ContextCore.erase r.registry tag).filter (·.2 != t) =
    (ContextCore.erase l.registry tag).filter (·.2 != t)
  rw [erase_filter, erase_filter, alike.registry]

theorem find (alike : Alike t l r) {ops ops' : List OpId}
    (same : ops'.filter (· != t) = ops.filter (· != t))
    (left : Spread l ops) (right : Spread r ops') (p : OpId) :
    (ops'.find? (r.sameAddress p)).filter (· != t) = (ops.find? (l.sameAddress p)).filter (· != t) := by
  have one (s : ContextCore) {ops : List OpId} (spread : Spread s ops) : ∀ x ∈ ops, ∀ y ∈ ops,
      s.sameAddress p x = true → s.sameAddress p y = true → x = y := by
    intro x member y member' same same'
    have first : (s.cell p).addr = (s.cell x).addr := by simpa [ContextCore.sameAddress] using same
    have second : (s.cell p).addr = (s.cell y).addr := by simpa [ContextCore.sameAddress] using same'
    exact spread x member y member' (first.symm.trans second)
  have search : r.sameAddress p = l.sameAddress p := funext (alike.sameAddress p)
  rw [find_filter _ _ (one r right), find_filter _ _ (one l left), same, search]

theorem queueFind (alike : Alike t l r) (left : Spread l l.writeQueue)
    (right : Spread r r.writeQueue) (p : OpId) :
    (r.queueFind p).filter (· != t) = (l.queueFind p).filter (· != t) :=
  alike.find alike.queue left right p

theorem deref (alike : Alike t l r) (left : Spread l l.live) (right : Spread r r.live) (p : OpId) :
    (r.deref p).filter (· != t) = (l.deref p).filter (· != t) :=
  alike.find alike.live left right p

theorem requeue (alike : Alike t l r) {queue queue' : List OpId}
    (same : queue'.filter (· != t) = queue.filter (· != t)) :
    Alike t { l with writeQueue := queue } { r with writeQueue := queue' } :=
  { alike with queue := same }

theorem extract_queue (s : ContextCore) (p : OpId) :
    (s.extractFromQueueLocked p).1.writeQueue.filter (· != t) =
      ((s.queueFind p).filter (· != t)).elim (s.writeQueue.filter (· != t))
      (s.writeQueue.filter (· != t)).erase := by
  rw [extractFromQueueLocked]
  cases s.queueFind p with
  | none => rfl
  | some op =>
    by_cases same : op = t
    · subst same
      simp [Option.filter_some, erase_self_without]
    · simp [Option.filter_some, same, erase_without same]

theorem extract_cell (s : ContextCore) (p : OpId) : (s.extractFromQueueLocked p).2 = s.queueFind p := by
  rw [extractFromQueueLocked]
  cases s.queueFind p <;> rfl

theorem extract (alike : Alike t l r) (left : Spread l l.writeQueue) (right : Spread r r.writeQueue)
    (p : OpId) :
    Alike t (l.extractFromQueueLocked p).1 (r.extractFromQueueLocked p).1 := by
  rw [extract_eq l, extract_eq r]
  apply alike.requeue
  rw [extract_queue, extract_queue, alike.queueFind left right, alike.queue]

theorem extractAll (ops : List OpId) (alike : Alike t l r) (left : Spread l l.writeQueue)
    (right : Spread r r.writeQueue) :
    Alike t (l.extractAll ops).1 (r.extractAll ops).1 ∧
      (r.extractAll ops).2.filter (· != t) = (l.extractAll ops).2.filter (· != t) := by
  induction ops generalizing l r with
  | nil => exact ⟨alike, rfl⟩
  | cons p ops ih =>
    have kept (s : ContextCore) (spread : Spread s s.writeQueue) :
        Spread (s.extractFromQueueLocked p).1 (s.extractFromQueueLocked p).1.writeQueue :=
      spread.sublist (extract_agrees s p) (extract_sublist s p)
    obtain ⟨core, retired⟩ := ih (alike.extract left right p) (kept l left) (kept r right)
    refine ⟨core, ?_⟩
    have found := congrArg Option.toList (alike.queueFind left right p)
    have dropped (cell : Option OpId) :
        cell.toList.filter (· != t) = (cell.filter (· != t)).toList := by
      cases cell with
      | none => rfl
      | some op => by_cases same : op = t <;> simp [Option.filter_some, same]
    simp only [ContextCore.extractAll, List.filter_append, retired, extract_cell, dropped, found]

theorem takeCells (alike : Alike t l r) (pred : Operation → Bool) :
    Alike t (l.takeCellsLocked pred).1 (r.takeCellsLocked pred).1 ∧
      (r.takeCellsLocked pred).2.filter (· != t) = (l.takeCellsLocked pred).2.filter (· != t) := by
  have parts (keep : Operation → Bool) :
    (r.writeQueue.filter fun op => keep (r.cell op)).filter (· != t) =
      (l.writeQueue.filter fun op => keep (l.cell op)).filter (· != t) := by
    rw [List.filter_comm, List.filter_comm _ (fun op => keep (l.cell op)), alike.queue]
    apply List.filter_congr
    intro op member
    rw [alike.cell op (by simpa using (List.mem_filter.mp member).2)]
  exact ⟨alike.requeue (parts fun c => !pred c), parts pred⟩

theorem dispose (alike : Alike t l r) {ops ops' : List OpId}
    (same : ops'.filter (· != t) = ops.filter (· != t)) :
    Alike t (l.dispose ops) (r.dispose ops') := by
  have member {op : OpId} (other : op ≠ t) : op ∈ ops' ↔ op ∈ ops := by
    have inside := congrArg (op ∈ ·) same
    simpa [other] using inside
  refine { alike.unsaid [.disposed ops] [.disposed ops'] rfl rfl with live := ?_ }
  change (r.live.filter fun op => !ops'.contains op).filter (· != t) =
    (l.live.filter fun op => !ops.contains op).filter (· != t)
  rw [List.filter_comm, List.filter_comm _ (fun op => !ops.contains op), alike.live]
  apply List.filter_congr
  intro op inside
  have other : op ≠ t := by simpa using (List.mem_filter.mp inside).2
  simp [member other]

theorem dispose_self (s : ContextCore) {ops : List OpId} (own : ∀ op ∈ ops, op = t) :
    Alike t s (s.dispose ops) := by
  refine { emit_self s [.disposed ops] rfl with live := ?_ }
  change (s.live.filter fun op => !ops.contains op).filter (· != t) = s.live.filter (· != t)
  rw [List.filter_filter]
  apply List.filter_congr
  intro op _
  by_cases same : op = t
  · simp [same]
  · have kept : op ∉ ops := fun member => same (own op member)
    simp [kept]

theorem maybeFinishClose (alike : Alike t l r) : Alike t l.maybeFinishClose r.maybeFinishClose := by
  rw [ContextCore.maybeFinishClose, ContextCore.maybeFinishClose, alike.phase, alike.readRunning,
    alike.writeInFlight]
  split
  · exact { alike.unsaid [.descriptorClosed] [.descriptorClosed] rfl rfl with phase := rfl }
  · exact alike

theorem deliverValue (alike : Alike t l r) {op : OpId} (other : op ≠ t) (ec : Option ErrorCode) :
    Alike t (l.deliverValue op ec) (r.deliverValue op ec) := by
  rw [ContextCore.deliverValue, ContextCore.deliverValue, alike.cell op other]
  split
  · exact alike
  · exact (alike.modify other _).emit rfl

theorem deliverStopped (alike : Alike t l r) {op : OpId} (other : op ≠ t) :
    Alike t (l.deliverStopped op) (r.deliverStopped op) := by
  rw [ContextCore.deliverStopped, ContextCore.deliverStopped, alike.cell op other]
  split
  · exact alike
  · exact (alike.modify other _).emit rfl

theorem deliverValue_self (s : ContextCore) (ec : Option ErrorCode) :
    Alike t s (s.deliverValue t ec) := by
  rw [ContextCore.deliverValue]
  split
  · exact refl t s
  · exact (modify_self s (fun c => { c with finished := true }) fun _ => ⟨rfl, rfl, rfl, rfl⟩).trans
      (emit_self _ _ (by simp [Event.tells]))

theorem deliverStopped_self (s : ContextCore) : Alike t s (s.deliverStopped t) := by
  rw [ContextCore.deliverStopped]
  split
  · exact refl t s
  · refine (modify_self s (fun c => { c with finished := true }) fun _ =>
      ⟨rfl, rfl, rfl, rfl⟩).trans (emit_self _ _ ?_)
    split <;> simp [Event.tells]

theorem fail_self (s : ContextCore) (ec : ErrorCode) : Alike t s (s.fail t ec) :=
  (emit_self s _ (by simp [Event.tells])).trans (deliverValue_self _ _)

theorem completeStopped_self (s : ContextCore) : Alike t s (s.completeStopped t) :=
  (emit_self s _ (by simp [Event.tells])).trans (deliverStopped_self _)

theorem onTagged_self (s : ContextCore) (r : TaggedResponse) : Alike t s (s.onTagged t r) := by
  have said : Alike t s (s.emit [.terminal t (.tagged r)]) := emit_self s _ (by simp [Event.tells])
  simp only [ContextCore.onTagged]
  split
  · exact said.trans (deliverStopped_self _)
  · exact (said.trans (modify_self _ (fun c => { c with command := c.command.afterTagged }) fun _ =>
      ⟨rfl, rfl, rfl, rfl⟩)).trans
      (deliverValue_self _ _)

theorem both (alike : Alike t l r) (f : ContextCore → OpId → ContextCore) (op : OpId)
    (self : ∀ s, Alike t s (f s t))
    (other : op ≠ t → Alike t (f l op) (f r op)) : Alike t (f l op) (f r op) := by
  by_cases same : op = t
  · subst same
    exact ((self l).symm.trans alike).trans (self r)
  · exact other same

theorem fail (alike : Alike t l r) (op : OpId) (ec : ErrorCode) :
    Alike t (l.fail op ec) (r.fail op ec) :=
  alike.both (fun s op => s.fail op ec) op (fail_self · ec) fun other =>
    (alike.emit rfl).deliverValue other _

theorem completeStopped (alike : Alike t l r) (op : OpId) :
    Alike t (l.completeStopped op) (r.completeStopped op) :=
  alike.both ContextCore.completeStopped op completeStopped_self fun other =>
    (alike.emit rfl).deliverStopped other

theorem onTagged (alike : Alike t l r) (op : OpId) (response : TaggedResponse) :
    Alike t (l.onTagged op response) (r.onTagged op response) := by
  refine alike.both (fun s op => s.onTagged op response) op (onTagged_self · response) fun other => ?_
  have said :
    Alike t (l.emit [.terminal op (.tagged response)]) (r.emit [.terminal op (.tagged response)]) :=
    alike.emit rfl
  simp only [ContextCore.onTagged, said.cell op other]
  split
  · exact said.deliverStopped other
  · exact (said.modify other _).deliverValue other _

theorem stage (alike : Alike t l r) {op : OpId} (other : op ≠ t) (segment : Bytes) :
    Alike t (l.stage op segment) (r.stage op segment) := by
  have staged : Alike t ((l.modify op Operation.onSegmentStaged).emit [.staged l.drains op segment])
      ((r.modify op Operation.onSegmentStaged).emit [.staged r.drains op segment]) :=
    (alike.modify other _).unsaid _ _ rfl rfl
  simp only [ContextCore.stage, staged.cell op other]
  split
  · exact { staged with target := rfl }
  · exact { staged with }

theorem drain (ops : List OpId) (alike : Alike t l r) (staging : r.writeStaging = l.writeStaging)
    (written : (l.cell t).isWritten = true) :
    Alike t (l.drain ops).1 (r.drain (ops.filter (· != t))).1 ∧
      (r.drain (ops.filter (· != t))).1.writeStaging = (l.drain ops).1.writeStaging := by
  induction ops generalizing l r with
  | nil => exact ⟨alike, staging⟩
  | cons op ops ih =>
    by_cases same : op = t
    · subst same
      simpa [ContextCore.drain, written] using ih alike staging written
    · have next : (l.stage op (l.cell op).nextSegment).cell t = l.cell t := by
        rw [stage_cell, if_neg (Ne.symm same)]
      have staged := alike.stage same (l.cell op).nextSegment
      have bytes : (r.stage op (l.cell op).nextSegment).writeStaging =
          (l.stage op (l.cell op).nextSegment).writeStaging := by
        rw [stage_staging, stage_staging, staging]
      rw [List.filter_cons_of_pos (by simpa using same)]
      simp only [ContextCore.drain, alike.cell op same]
      split
      · exact ih alike staging written
      · split
        · split
          · exact ⟨alike, staging⟩
          · exact ih alike staging written
        · split
          · exact ⟨staged, bytes⟩
          · exact ih staged bytes (next ▸ written)

theorem newDrain (s : ContextCore) : Alike t s s.newDrain := { refl t s with }

theorem kick (alike : Alike t l r) (left : (l.cell t).isWritten = true)
    (right : (r.cell t).isWritten = true) :
    Alike t l.kick.core r.kick.core := by
  have fresh : Alike t l.newDrain r.newDrain := ((newDrain l).symm.trans alike).trans (newDrain r)
  obtain ⟨drained, bytes⟩ := drain l.writeQueue fresh rfl left
  obtain ⟨drained', bytes'⟩ := drain r.writeQueue (refl t r.newDrain) rfl right
  rw [alike.queue] at drained' bytes'
  have both := drained.trans drained'.symm
  simp only [ContextCore.kick, alike.phase, alike.writeInFlight, bytes'.symm.trans bytes]
  split
  · exact alike
  · split
    · exact both
    · exact { both with writeInFlight := rfl }

theorem kick_self {s : ContextCore} (idles : s.kickIdles = true) : Alike t s s.kick.core := by
  simp only [ContextCore.kickIdles, Bool.or_eq_true, bne_iff_ne, List.isEmpty_iff] at idles
  rw [ContextCore.kick]
  split
  · exact refl t s
  · next drains =>
    have none : s.reached s.writeQueue = [] := idles.resolve_left drains
    have drained : s.newDrain.drain s.writeQueue = (s.newDrain, []) :=
      drain_nothing (s.newDrain_reached _ ▸ none)
    simp only [drained]
    exact newDrain s

theorem flushOne (alike : Alike t l r) {op : OpId} (other : op ≠ t) (number number' : Nat) :
    Alike t (l.flushOne number op) (r.flushOne number' op) := by
  have flushed : Alike t ((l.modify op Operation.onSegmentFlushed).emit [.segmentFlushed number op])
      ((r.modify op Operation.onSegmentFlushed).emit [.segmentFlushed number' op]) :=
    (alike.modify other _).unsaid _ _ rfl rfl
  simp only [ContextCore.flushOne, flushed.cell op other]
  split
  · exact { flushed with target := rfl }
  · exact flushed

theorem flushOne_self (s : ContextCore) (number : Nat)
    (parked : (s.cell t).awaitsContinuation = false) :
    Alike t s (s.flushOne number t) := by
  have flushed : Alike t s ((s.modify t Operation.onSegmentFlushed).emit [.segmentFlushed number t]) :=
    (modify_self s Operation.onSegmentFlushed fun _ => ⟨rfl, rfl, rfl, rfl⟩).trans (emit_self _ _ rfl)
  have still : (s.cell t).onSegmentFlushed.awaitsContinuation = false :=
    (s.cell t).awaitsContinuation_flushed.trans parked
  simp only [ContextCore.flushOne]
  rw [if_neg (by simpa using still)]
  exact flushed

theorem extract_self {s : ContextCore} {p : OpId}
    (own : s.queueFind p = none ∨ s.queueFind p = some t) :
    Alike t s (s.extractFromQueueLocked p).1 := by
  rw [extract_eq]
  apply (refl t s).requeue
  rw [extract_queue]
  rcases own with absent | own
  · simp [absent]
  · simp [own, Option.filter_some]

theorem flushTurn_self {s : ContextCore} {p : OpId} (spread : Spread s s.writeQueue) (number : Nat)
    (own : s.queueFind p = none ∨ s.queueFind p = some t)
    (parked : (s.cell t).awaitsContinuation = false) :
    Alike t s (flushTurn number s p) := by
  have flushed := flushOne_self s number parked
  rw [flushTurn]
  rcases own with absent | own
  · rw [absent]
    exact refl t s
  · rw [own]
    simp only
    split
    · have agrees := flushOne_agrees s number t
      refine flushed.trans (extract_self (.inr ?_))
      have queue : (s.flushOne number t).writeQueue = s.writeQueue := flushOne_queue s number t
      have kept : Spread (s.flushOne number t) (s.flushOne number t).writeQueue :=
        spread.sublist agrees (queue ▸ .refl _)
      exact kept.find_eq (queue ▸ (queueFind_some own).1)
    · exact flushed

theorem flushTurn (alike : Alike t l r) (left : Spread l l.writeQueue) (right : Spread r r.writeQueue)
    (parked : (l.cell t).awaitsContinuation = false) (parked' : (r.cell t).awaitsContinuation = false)
    (number number' : Nat) (p : OpId) :
    Alike t (ContextCore.flushTurn number l p) (ContextCore.flushTurn number' r p) := by
  rcases found_alike (alike.queueFind left right p) with ⟨op, other, found, found'⟩ | ⟨own, own'⟩
  · have flushed := alike.flushOne other number number'
    rw [ContextCore.flushTurn, ContextCore.flushTurn, found, found']
    simp only [flushed.cell op other]
    have kept (s : ContextCore) (number : Nat) (spread : Spread s s.writeQueue) :
        Spread (s.flushOne number op) (s.flushOne number op).writeQueue :=
      spread.sublist (flushOne_agrees s number op) (flushOne_queue s number op ▸ .refl _)
    split
    · exact flushed.extract (kept l number left) (kept r number' right) op
    · exact flushed
  · exact ((flushTurn_self left number own parked).symm.trans alike).trans
      (flushTurn_self right number' own' parked')

theorem flushLoop (ops : List OpId) (alike : Alike t l r) (left : Spread l l.writeQueue)
    (right : Spread r r.writeQueue)
    (parked : (l.cell t).awaitsContinuation = false) (parked' : (r.cell t).awaitsContinuation = false)
    (number number' : Nat) : Alike t (l.flushLoop number ops).1 (r.flushLoop number' ops).1 := by
  rw [flushLoop_turns, flushLoop_turns]
  induction ops generalizing l r with
  | nil => exact alike
  | cons p ops ih =>
    rw [List.foldl_cons, List.foldl_cons]
    apply ih (alike.flushTurn left right parked parked' number number' p)
    · exact left.sublist (flushTurn_agrees number l p) (flushTurn_sublist number l p)
    · exact right.sublist (flushTurn_agrees number' r p) (flushTurn_sublist number' r p)
    · exact (flushTurn_awaits number l p t).trans parked
    · exact (flushTurn_awaits number' r p t).trans parked'

theorem allocateTag (alike : Alike t l r) : Alike t l.allocateTag r.allocateTag := by
  refine { alike with tagCounter := ?_, tags := ?_ }
  · simp [ContextCore.allocateTag, alike.tagCounter]
  · simp [ContextCore.allocateTag, alike.tags, alike.tagCounter]

theorem attach (alike : Alike t l r) (old : t < l.made) (tag : Tag) (request : Request) (addr : Nat)
    (callbackPath kick : Bool) :
    Alike t (l.attach tag request addr callbackPath kick).core
    (r.attach tag request addr callbackPath kick).core := by
  have apart : t ≠ l.made := Nat.ne_of_lt old
  refine { alike with tags := ?_, made := ?_, cell := ?_, fixed := ?_, live := ?_ }
  · simp [ContextCore.attach, alike.tags]
  · simp [ContextCore.attach, alike.made]
  · intro op other
    by_cases same : op = l.made
    · simp [ContextCore.attach, same, alike.made]
    · simp [ContextCore.attach, same, alike.made, alike.cell op other]
  · simpa [ContextCore.attach, alike.made, apart] using alike.fixed
  · simp [ContextCore.attach, alike.live, alike.made]

theorem postKick_self (s : ContextCore) : Alike t s s.postKick.core := by
  rw [ContextCore.postKick]
  split
  · exact refl t s
  · exact { refl t s with }

theorem postKick (alike : Alike t l r) : Alike t l.postKick.core r.postKick.core :=
  ((postKick_self l).symm.trans alike).trans (postKick_self r)

theorem readReceiver (alike : Alike t l r) (result result' : ReadResult) :
    Alike t (l.readReceiver result).core (r.readReceiver result').core := by
  simp only [ContextCore.readReceiver, alike.abandoned, alike.phase]
  split
  · cases result <;> cases result' <;> exact alike
  · exact alike.unlatchRead

theorem armRead (alike : Alike t l r) : Alike t l.armRead.core r.armRead.core := by
  simp only [ContextCore.armRead, alike.abandoned, alike.phase, alike.suspendRead]
  split
  · exact alike.unlatchRead.maybeFinishClose
  · exact alike.unsaid _ _ rfl rfl

theorem rearm (alike : Alike t l r) : Alike t l.rearm.core r.rearm.core := by
  simp only [ContextCore.rearm, alike.phase, alike.suspendRead]
  split
  · exact alike
  · exact alike.unlatchRead

end Alike

end ContextCore

end Bkmail
