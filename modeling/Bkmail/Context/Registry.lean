import Bkmail.Context.Cells

namespace Bkmail

namespace ContextCore

/-! The registry as a map: what `find`, `emplace` and `erase` do to its entries. -/

theorem mem_of_lookup {registry : List (Tag × OpId)} {tag : Tag} {p : OpId}
    (found : lookup registry tag = some p) :
    (tag, p) ∈ registry := by
  obtain ⟨entry, member, rfl⟩ := Option.map_eq_some_iff.mp found
  have same := List.find?_some member
  simp only [beq_iff_eq] at same
  rw [← same]
  exact List.mem_of_find?_eq_some member

theorem lookup_none {registry : List (Tag × OpId)} {tag : Tag} (absent : lookup registry tag = none) :
    ∀ entry ∈ registry, entry.1 ≠ tag := by
  intro entry member same
  have fails := List.find?_eq_none.mp (Option.map_eq_none_iff.mp absent) entry member
  simp [same] at fails

theorem mem_erase {registry : List (Tag × OpId)} {tag : Tag} {entry : Tag × OpId} :
    entry ∈ erase registry tag ↔ entry ∈ registry ∧ entry.1 ≠ tag := by
  simp [erase]

theorem mem_emplace {registry : List (Tag × OpId)} {tag : Tag} {op : OpId} {entry : Tag × OpId}
    (member : entry ∈ emplace registry tag op) : entry ∈ registry ∨ entry = (tag, op) := by
  unfold emplace at member
  split at member
  · exact .inl member
  · simpa using member

theorem emplace_old {registry : List (Tag × OpId)} {entry : Tag × OpId} (tag : Tag) (op : OpId)
    (member : entry ∈ registry) : entry ∈ emplace registry tag op := by
  unfold emplace
  split
  · exact member
  · exact List.mem_append_left _ member

theorem emplace_new {registry : List (Tag × OpId)} {tag : Tag} {op : OpId}
    (absent : ∀ entry ∈ registry, entry.1 ≠ tag) : (tag, op) ∈ emplace registry tag op := by
  unfold emplace
  rw [if_neg]
  · exact List.mem_append_right _ (List.mem_singleton.mpr rfl)
  · simpa using fun p member => absent (tag, p) member rfl

theorem erase_emplace (registry : List (Tag × OpId)) (tag : Tag) (op : OpId) :
    erase (emplace registry tag op) tag = erase registry tag := by
  unfold emplace
  split
  · rfl
  · simp [erase]

theorem mem_erases {tagOf : OpId → Tag} {ops : List OpId} {registry : List (Tag × OpId)}
    {entry : Tag × OpId} :
    entry ∈ ops.foldl (fun registry op => erase registry (tagOf op)) registry ↔
      entry ∈ registry ∧ ∀ op ∈ ops, entry.1 ≠ tagOf op := by
  induction ops generalizing registry with
  | nil => simp
  | cons op ops ih =>
    rw [List.foldl_cons, ih, mem_erase]
    simp [and_assoc]

theorem erases_sublist (tagOf : OpId → Tag) (ops : List OpId) (registry : List (Tag × OpId)) :
    (ops.foldl (fun registry op => erase registry (tagOf op)) registry).Sublist registry := by
  induction ops generalizing registry with
  | nil => exact .refl _
  | cons op ops ih => exact (ih _).trans List.filter_sublist

end ContextCore

def Work.lifted : Work → List OpId
  | .writeFailed _ retired | .writeLost _ retired => retired
  | _ => []

def liftedOf (pending : List Work) : List OpId := pending.flatMap Work.lifted

@[simp] theorem liftedOf_nil : liftedOf [] = [] := rfl

@[simp] theorem liftedOf_cons (work : Work) (pending : List Work) :
    liftedOf (work :: pending) = work.lifted ++ liftedOf pending := List.flatMap_cons

@[simp] theorem liftedOf_append (left right : List Work) :
    liftedOf (left ++ right) = liftedOf left ++ liftedOf right :=
  List.flatMap_append

namespace ContextCore

@[simp] theorem lifted_fails (ops : List OpId) (ec : ErrorCode) :
    liftedOf (ops.map (Work.fail · ec)) = [] := by
  simp [liftedOf, Work.lifted]

@[simp] theorem lifted_stops (ops : List OpId) : liftedOf (ops.map Work.postCompleteStopped) = [] := by
  simp [liftedOf, Work.lifted]

@[simp] theorem lifted_retire (abandoned : Bool) (retired : List OpId) :
    liftedOf (retire abandoned retired) = [] := by
  cases abandoned <;> simp [retire, Work.lifted]

end ContextCore

/-- The cells that a write gives up outside the open phase: those of a batch whose arm is unwound
    or whose completion comes too late, and those of a failed one once the descriptor is closed. -/
def Section.retiring (s : ContextCore) : Section → List OpId
  | .work (.armWrite batch) _ | .work (.writeFlushed batch) _ =>
    if s.phase = .opened then [] else s.hits batch.ops
  | .work (.writeLost _ retired) _ => if s.phase = .closed then retired else []
  | _ => []

/-- What a section does to the registry, the queue and the continuation route. -/
inductive Section.Routes (s : ContextCore) : Section → Outcome → Prop where
  | idle (sec : Section) (o : Outcome) : o.core.registry = s.registry →
      o.core.writeQueue = s.writeQueue → (o.core.continuationTarget = s.continuationTarget ∨
        o.core.continuationTarget = none ∧ ∃ text rest r, sec = .work (.readLoop (text :: rest)) .go ∧
          Parser.parse text = some (.continuation r)) →
      liftedOf o.produced = liftedOf sec.consumed → Routes s sec o
  | register (op : OpId) (post : Bool) (o : Outcome) : s.phase = .opened →
      o.core.registry = ContextCore.emplace s.registry (s.cell op).tag op →
      o.core.writeQueue = s.writeQueue ++ [op] → o.core.continuationTarget = s.continuationTarget →
      Routes s (.work (.enqueueOperation op post) .go) o
  | revoke (op : OpId) (post : Bool) (o : Outcome) : s.phase = .opened →
      o.core.registry = ContextCore.erase s.registry (s.cell op).tag →
      o.core.writeQueue = s.writeQueue → o.core.continuationTarget = s.continuationTarget →
      Routes s (.work (.enqueueOperation op post) .go) o
  | withdraw (c : Call) (tag : Tag) (p op : OpId) (o : Outcome) : s.phase = .opened →
      ContextCore.lookup s.registry tag = some p → s.deref p = some op →
      (s.cell op).awaitsContinuation = false → o.core.registry = ContextCore.erase s.registry tag →
      o.core.writeQueue = s.writeQueue.erase op → o.core.continuationTarget = s.continuationTarget →
      Routes s (.call c) o
  | detach (c : Call) (tag : Tag) (p op : OpId) (o : Outcome) : s.phase = .opened →
      ContextCore.lookup s.registry tag = some p → s.deref p = some op →
      (o.core.cell op).detached = true →
      o.core.registry = ContextCore.erase s.registry tag → o.core.writeQueue = s.writeQueue →
      o.core.continuationTarget = s.continuationTarget → Routes s (.call c) o
  | reply (texts : List Bytes) (tag : Tag) (p : OpId) (o : Outcome) :
      ContextCore.lookup s.registry tag = some p → o.core.registry = ContextCore.erase s.registry tag →
      o.core.writeQueue = (s.extractFromQueueLocked p).1.writeQueue →
      (∀ q, o.core.continuationTarget = some q ↔
      s.continuationTarget = some q ∧ s.sameAddress p q = false) →
      Routes s (.work (.readLoop texts) .go) o
  | purge (sec : Section) (o : Outcome) : o.core.phase = .draining → o.core.registry = [] →
      o.core.continuationTarget = none → Routes s sec o
  | close (o : Outcome) : o.core.phase = .draining → o.core.registry.Sublist s.registry →
      (∀ entry ∈ o.core.registry, entry ∈ s.registry ∧ ∀ op ∈ s.writeQueue,
        op ∈ o.core.writeQueue ∨ entry.1 ≠ (s.cell op).tag) →
      o.core.continuationTarget = none → Routes s (.call .close) o
  | retire (sec : Section) (o : Outcome) (batch : Batch) :
      s.phase ≠ .opened → s.abandoned = true ∨ sec.retiring s = s.hits batch.ops →
      o.core.registry = s.registry →
      o.core.writeQueue = s.writeQueue.filter (fun op => !(s.hits batch.ops).contains op) →
      o.core.continuationTarget = s.continuationTarget → liftedOf sec.consumed = [] → Routes s sec o
  | lift (o : Outcome) (batch : Batch) (ec : ErrorCode) : o.core.registry = s.registry →
      o.core.writeQueue = s.writeQueue.filter (fun op => !(s.hits batch.ops).contains op) →
      o.core.continuationTarget = s.continuationTarget → liftedOf o.produced = s.hits batch.ops →
      Routes s (.work (.writing batch) (.failed ec)) o
  | drop (sec : Section) (o : Outcome) :
      s.phase ≠ .opened → s.abandoned = true ∨ sec.retiring s = liftedOf sec.consumed →
      o.core.registry = s.registry →
      o.core.writeQueue = s.writeQueue → o.core.continuationTarget = s.continuationTarget →
      Routes s sec o
  | flush (batch : Batch) (o : Outcome) (retired : List OpId) : s.phase = .opened →
      (s.unlatchWrite).Flushed batch.number batch.ops o.core retired → o.core.registry = s.registry →
      Routes s (.work (.writeFlushed batch) .go) o
  | kick (o : Outcome) : s.phase = .opened → s.Kicked o.core → o.core.registry = s.registry →
      Routes s (.work .kick .go) o

namespace Custody

variable {core : ContextCore} {pending : List Work}

theorem extract_queue (custody : Custody core pending) {op : OpId} (live : op ∈ core.live) :
    (core.extractFromQueueLocked op).1.writeQueue = core.writeQueue.erase op := by
  by_cases queued : op ∈ core.writeQueue
  · simp [ContextCore.extractFromQueueLocked, custody.queueFind_eq queued]
  · have absent : core.queueFind op = none := by
      refine List.find?_eq_none.mpr fun q member same => queued ?_
      rw [custody.distinct op live q (custody.queue_live member) (by simpa [ContextCore.sameAddress]
        using same)]
      exact member
    simp [ContextCore.extractFromQueueLocked, absent, List.erase_of_not_mem queued]

theorem deref_live {p op : OpId} (found : core.deref p = some op) : op ∈ core.live :=
  List.mem_of_find?_eq_some found

end Custody

namespace ContextCore

open Section (Routes)

variable {s t : ContextCore} {pending : List Work}

theorem Agrees.deref (agrees : s.Agrees t) (p : OpId) : t.deref p = s.deref p := by
  have same : t.sameAddress p = s.sameAddress p := funext (agrees.sameAddress p)
  simp only [ContextCore.deref, agrees.live, same]

theorem Agrees.queueFind (agrees : s.Agrees t) (queue : t.writeQueue = s.writeQueue) (p : OpId) :
    t.queueFind p = s.queueFind p := by
  have same : t.sameAddress p = s.sameAddress p := funext (agrees.sameAddress p)
  simp only [ContextCore.queueFind, queue, same]

theorem extract_congr (found : t.queueFind = s.queueFind) (queue : t.writeQueue = s.writeQueue)
    (p : OpId) :
    (t.extractFromQueueLocked p).1.writeQueue = (s.extractFromQueueLocked p).1.writeQueue := by
  simp only [extractFromQueueLocked, found]
  split <;> simp [queue]

theorem cancelWith_routes (agrees : s.Agrees t) (queue : t.writeQueue = s.writeQueue)
    (target : t.continuationTarget = s.continuationTarget)
    (awaits : ∀ op, (t.cell op).awaitsContinuation = (s.cell op).awaitsContinuation)
    (custody : Custody s pending) (c : Call) (tag : Tag) (expected : Option OpId) :
    Routes s (.call c) (t.cancelWith tag expected) := by
  have found : t.queueFind = s.queueFind := funext (agrees.queueFind queue)
  unfold cancelWith
  split
  · exact .idle _ _ agrees.registry queue (.inl target) rfl
  · rename_i opened
    rw [not_not, agrees.phase] at opened
    have cancelled := findAndDetachLocked_cancelled t tag expected
    generalize t.findAndDetachLocked tag expected = result at cancelled
    cases cancelled with
    | refused => exact .idle _ _ agrees.registry queue (.inl target) rfl
    | dangling p => exact .idle _ _ agrees.registry queue (.inl target) rfl
    | done p op => exact .idle _ _ agrees.registry queue (.inl target) rfl
    | withdrawn p op entry cell _ parked =>
      rw [agrees.registry] at entry
      rw [agrees.deref] at cell
      rw [awaits] at parked
      refine .withdraw c tag p op _ opened entry cell parked ?_ ?_ ?_
      · simp only [unregister_registry]
        rw [extract_eq, agrees.registry]
      · simp only [unregister_writeQueue]
        rw [extract_congr found queue, custody.extract_queue (Custody.deref_live cell)]
      · simp only [unregister_continuationTarget]
        rw [extract_eq, target]
    | detached p op entry cell =>
      rw [agrees.registry] at entry
      rw [agrees.deref] at cell
      refine .detach c tag p op _ opened entry cell ?_ ?_ queue target
      · simp [Operation.markDetached]
      · simp [agrees.registry]

theorem revoked_queue (custody : Custody s pending) {op : OpId} {post : Bool}
    (pends : .enqueueOperation op post ∈ pending) :
    (((s.register op).takeStopRequest op).extractFromQueueLocked op).1.writeQueue = s.writeQueue := by
  have live : op ∈ s.live := custody.owned_live pends (List.mem_singleton.mpr rfl)
  have unqueued : op ∉ s.writeQueue := custody.owned_not_queued pends (List.mem_singleton.mpr rfl)
  have absent : s.writeQueue.find? (s.sameAddress op) = none := by
    refine List.find?_eq_none.mpr fun q member same => unqueued ?_
    rw [custody.distinct op live q (custody.queue_live member) (by simpa [sameAddress] using same)]
    exact member
  have agrees := modify_agrees (s.register op) op (fun c => { c with stopSeen := false })
    fun _ => ⟨rfl, rfl, rfl, rfl⟩
  have itself : ((s.register op).takeStopRequest op).queueFind op = some op := by
    rw [takeStopRequest, agrees.queueFind rfl]
    have same : (s.register op).sameAddress op = s.sameAddress op := rfl
    simp only [queueFind, register_writeQueue, same, List.find?_append, absent, Option.none_or]
    simp [sameAddress]
  simp only [extractFromQueueLocked, itself]
  simp [takeStopRequest, List.erase_append_right _ unqueued]

theorem enqueueOperation_routes (custody : Custody s pending) (op : OpId) (post : Bool)
    (pends : .enqueueOperation op post ∈ pending) :
    Routes s (.work (.enqueueOperation op post) .go) (s.enqueueOperation op post) := by
  unfold enqueueOperation
  split
  · rename_i opened
    split
    · refine .revoke op post _ opened ?_ (revoked_queue custody pends) ?_
      · simp only [unregister_registry]
        rw [extract_eq]
        exact erase_emplace _ _ _
      · simp only [unregister_continuationTarget]
        rw [extract_eq]
        rfl
    · exact .register op post _ opened rfl rfl rfl
  · exact .idle _ _ rfl rfl (.inl rfl) rfl

theorem readLoop_routes (s : ContextCore) (texts : List Bytes) :
    Routes s (.work (.readLoop texts) .go) (s.readLoop texts) := by
  cases texts with
  | nil => exact .idle _ _ rfl rfl (.inl rfl) rfl
  | cons text rest =>
    simp only [readLoop, dispatch]
    split
    · exact .idle _ _ rfl rfl (.inl rfl) rfl
    · rename_i r parsed
      unfold dispatchTagged
      split
      · exact .idle _ _ rfl rfl (.inl rfl) rfl
      · rename_i p found
        have queue := extract_congr (s := s) (t := s.forget r.tag p) rfl rfl p
        have kept := extract_eq (s.forget r.tag p) p
        have registry := congrArg ContextCore.registry kept
        have route := congrArg ContextCore.continuationTarget kept
        have target : ∀ q, (s.forget r.tag p).continuationTarget = some q ↔
            s.continuationTarget = some q ∧ s.sameAddress p q = false := by
          intro q
          simp only [forget_continuationTarget]
          cases s.continuationTarget with
          | none => simp
          | some held =>
            cases same : s.sameAddress p held with
            | true =>
              simp only [Option.any_some, same, if_true]
              constructor
              · intro none
                cases none
              · rintro ⟨found, other⟩
                cases found
                simp [same] at other
            | false =>
              simp only [Option.any_some, same, Bool.false_eq_true, if_false]
              refine ⟨fun found => ⟨found, ?_⟩, And.left⟩
              cases found
              exact same
        split
        · rename_i t extracted
          rw [extracted] at queue registry route
          exact .reply _ r.tag p _ found registry queue fun q => route ▸ target q
        · rename_i t op extracted
          rw [extracted] at queue registry route
          exact .reply _ r.tag p _ found registry queue fun q => route ▸ target q
    · exact .idle _ _ rfl rfl (.inl rfl) rfl
    · rename_i r parsed
      simp only [dispatchContinuation]
      split
      · exact .idle _ _ rfl rfl (.inl rfl) rfl
      · split <;> exact .idle _ _ rfl rfl (.inr ⟨rfl, text, rest, r, rfl, parsed⟩) rfl

theorem connectionLost_routes (s : ContextCore) (ec : ErrorCode) :
    s.phase = .closed ∧ s.connectionLost ec = { core := s } ∨
      (s.connectionLost ec).core.phase = .draining ∧ (s.connectionLost ec).core.registry = [] ∧
        (s.connectionLost ec).core.continuationTarget = none := by
  unfold connectionLost
  split
  · rename_i closed
    exact .inl ⟨closed, rfl⟩
  · exact .inr ⟨rfl, rfl, rfl⟩

theorem close_routes (s : ContextCore) : Routes s (.call .close) s.close := by
  unfold close
  split
  · exact .idle _ _ rfl rfl (.inl rfl) rfl
  · refine .close _ rfl (erases_sublist _ _ _) ?_ rfl
    intro entry member
    obtain ⟨member, others⟩ := mem_erases.mp member
    refine ⟨member, fun op queued => ?_⟩
    cases never : !(s.cell op).isWritten && !(s.cell op).isStaged with
    | true => exact .inr (others op (List.mem_filter.mpr ⟨queued, never⟩))
    | false => exact .inl (List.mem_filter.mpr ⟨queued, by simp only [never, Bool.not_false]⟩)

end ContextCore

namespace Section

variable {core : ContextCore} {pending others : List Work} {sec : Section} {o : Outcome}

theorem Runs.routes (runs : sec.Runs core o) (consumed : pending.Perm (sec.consumed ++ others))
    (grounded : Grounded core pending) : Routes core sec o := by
  have custody := grounded.custody
  have nodup := custody.nodup_queue
  have extracted : ∀ batch ∈ batchesOf sec.consumed,
      (core.unlatchWrite.extractAll batch.ops).2 = core.hits batch.ops ∧
        (core.unlatchWrite.extractAll batch.ops).1.writeQueue =
          core.writeQueue.filter fun op => !(core.hits batch.ops).contains op := fun batch token =>
    ContextCore.extractAll_spec batch.ops core.unlatchWrite nodup
      (grounded.batched.apart batch (Grounded.consumed_batch consumed token))
  have registry : ∀ ops, (core.unlatchWrite.extractAll ops).1.registry = core.registry := fun ops =>
    (ContextCore.extractAll_agrees ops core.unlatchWrite).registry
  have route : ∀ ops, (core.unlatchWrite.extractAll ops).1.continuationTarget =
      core.continuationTarget := fun ops => by
    rw [ContextCore.extractAll_eq]
    rfl
  have unwound : ∀ batch ∈ batchesOf sec.consumed, ∀ o : Outcome,
      o.core = (core.unlatchWrite.extractAll batch.ops).1 →
      core.phase ≠ .opened → core.abandoned = true ∨ sec.retiring core = core.hits batch.ops →
      liftedOf sec.consumed = [] → Routes core sec o := by
    intro batch token o same torn given none
    refine .retire _ o batch torn given ?_ ?_ ?_ none <;> rw [same]
    · exact registry batch.ops
    · exact (extracted batch token).2
    · exact route batch.ops
  cases runs with
  | cancel tag =>
      exact ContextCore.cancelWith_routes (.refl core) rfl rfl (fun _ => rfl) custody _ tag none
  | requestStop op =>
    have agrees := core.modify_agrees op (fun c => { c with stopSeen := true }) fun _ =>
      ⟨rfl, rfl, rfl, rfl⟩
    refine ContextCore.cancelWith_routes agrees rfl rfl (fun i => ?_) custody _ _ _
    by_cases same : i = op <;> simp [same, Operation.awaitsContinuation]
  | enqueueOperation op post =>
    exact ContextCore.enqueueOperation_routes custody op post
      (Grounded.consumed_mem consumed (List.mem_singleton.mpr rfl))
  | readLoop texts => exact core.readLoop_routes texts
  | close => exact core.close_routes
  | abandon =>
    unfold ContextCore.abandon
    split
    · exact .idle _ _ rfl rfl (.inl rfl) rfl
    · exact .purge _ _ rfl rfl rfl
  | connectionLost ec =>
    rcases core.connectionLost_routes ec with ⟨-, same⟩ | ⟨phase, registry, target⟩
    · rw [same]
      exact .idle _ _ rfl rfl (.inl rfl) rfl
    · exact .purge _ _ phase registry target
  | readLost =>
    rcases core.connectionLost_routes .unexpectedResponse with ⟨-, same⟩ | ⟨phase, registry, target⟩
    · rw [ContextCore.readLost, same]
      exact .idle _ _ rfl rfl (.inl rfl) rfl
    · exact .purge _ _ phase registry target
  | writeLost ec retired =>
    rcases core.connectionLost_routes ec with ⟨closed, same⟩ | ⟨phase, registry, target⟩
    · have given : Section.retiring core (.work (.writeLost ec retired) .go) = retired := if_pos closed
      rw [ContextCore.writeLost, same]
      exact .drop _ _ (by simp [closed])
        (.inr (by simp [given, Section.consumed, Work.lifted])) rfl rfl rfl
    · exact .purge _ _ phase registry target
  | writeFailed ec retired =>
    unfold ContextCore.writeFailed
    cases gone : core.abandoned
    · exact .idle _ _ rfl rfl (.inl rfl) rfl
    · exact .drop _ _ (grounded.latched.abandoned gone) (.inl gone) rfl rfl rfl
  | writeError batch ec =>
    have token : batch ∈ batchesOf (Section.consumed (.work (.writing batch) (.failed ec))) := by
      simp [Section.consumed, Work.batch?]
    refine .lift _ batch ec (registry batch.ops) (extracted batch token).2 (route batch.ops) ?_
    simpa [ContextCore.onWriteDone, Outcome.produced, Work.lifted] using (extracted batch token).1
  | writeDone batch =>
    unfold ContextCore.onWriteDone
    cases gone : core.abandoned <;> exact .idle _ _ rfl rfl (.inl rfl) rfl
  | writeQuiet batch =>
    have token : batch ∈ batchesOf (Section.consumed (.work (.writeQuiet batch) .go)) := by
      simp [Section.consumed, Work.batch?]
    have gone :=
      grounded.ledger.quiet batch (Grounded.consumed_mem consumed (List.mem_singleton.mpr rfl))
    exact .retire _ _ batch (grounded.latched.abandoned gone) (.inl gone) (registry batch.ops)
      (extracted batch token).2 (route batch.ops) rfl
  | armWrite batch =>
    unfold ContextCore.armWrite
    split
    · rename_i torn
      have phase : core.phase ≠ .opened := torn.elim id grounded.latched.abandoned
      exact unwound batch (by simp [Section.consumed, Work.batch?]) _ rfl phase
        (.inr (if_neg phase)) rfl
    · exact .idle _ _ rfl rfl (.inl rfl) rfl
  | writeFlushed batch =>
    have token : batch ∈ batchesOf (Section.consumed (.work (.writeFlushed batch) .go)) := by
      simp [Section.consumed, Work.batch?]
    unfold ContextCore.writeFlushed
    split
    · rename_i opened
      have apart := grounded.batched.apart batch (Grounded.consumed_batch consumed token)
      refine .flush batch _ _ opened
        (ContextCore.flushLoop_flushed batch.number batch.ops core.unlatchWrite nodup apart) ?_
      exact (ContextCore.flushLoop_agrees batch.number batch.ops core.unlatchWrite).registry
    · rename_i torn
      exact unwound batch token _ rfl torn (.inr (if_neg torn)) rfl
  | kick =>
    have kicked := core.kicked nodup
    have registry := (ContextCore.drain_agrees core.writeQueue core.newDrain).registry
    unfold ContextCore.kick
    split
    · exact .idle _ _ rfl rfl (.inl rfl) rfl
    · rename_i drains
      simp only [not_or, not_not] at drains
      simp only
      split
      · exact .kick _ drains.1 kicked registry
      · exact .kick _ drains.1 ⟨kicked.drains, kicked.cell, kicked.log, kicked.staging,
          kicked.queue, kicked.target⟩
          registry
  | flush | postKick =>
    unfold ContextCore.postKick
    split <;> exact .idle _ _ rfl rfl (.inl rfl) rfl
  | reading choice result =>
    unfold ContextCore.readReceiver
    split
    · split <;> exact .idle _ _ rfl rfl (.inl rfl) rfl
    · exact .idle _ _ rfl rfl (.inl rfl) rfl
  | kickScheduled | kickRefused => exact .idle _ _ rfl rfl (.inl rfl) rfl
  | kickGate =>
    unfold ContextCore.kickGate
    cases core.abandoned <;> exact .idle _ _ rfl rfl (.inl rfl) rfl
  | fail op ec => exact .idle _ _ (core.fail_agrees op ec).registry (by simp) (.inl (by simp)) rfl
  | stopScheduled op =>
      exact .idle _ _ (core.completeStopped_agrees op).registry (by simp) (.inl (by simp)) rfl
  | onTagged op r => exact .idle _ _ (core.onTagged_agrees op r).registry (by simp) (.inl (by simp)) rfl
  | routeUntagged r =>
    exact .idle _ _ (core.routeUntagged_agrees r).registry (by simp) (.inl (by simp))
      (by simp [Section.consumed, Work.lifted])
  | maybeFinishClose => exact .idle _ _ (by simp) (by simp) (.inl (by simp)) rfl
  | armRead =>
    unfold ContextCore.armRead
    split
    · exact .idle _ _ (by simp) (by simp) (.inl (by simp)) rfl
    · exact .idle _ _ rfl rfl (.inl rfl) rfl
  | rearm =>
    unfold ContextCore.rearm
    split <;> exact .idle _ _ rfl rfl (.inl rfl) rfl
  | _ => exact .idle _ _ rfl rfl (.inl rfl) rfl

end Section

end Bkmail
