import Bkmail.Context.Alike

namespace Bkmail

open ContextCore

/-- A written command that can be put aside: nothing but a reply with its tag and untagged data lead
    to it. -/
structure Aside (t : OpId) (s : ContextCore) : Prop where
  distinct : Spread s s.live
  queued : ∀ op ∈ s.writeQueue, op ∈ s.live
  keys : (s.registry.map (·.1)).Nodup
  stamped : ∀ entry ∈ s.registry, (s.cell entry.2).tag = entry.1
  separate : Separate s
  held : s.phase = .opened → ∀ entry ∈ s.registry, entry.2 ∈ s.live
  here : ∀ entry ∈ s.registry, entry.2 = t → t ∈ s.writeQueue
  route : ∀ q, s.continuationTarget = some q → q ∈ s.live ∧ (s.cell q).awaitsContinuation = true
  written : (s.cell t).isWritten = true
  plain : (s.cell t).cancelWritten = none

namespace Aside

variable {t : OpId} {s : ContextCore} (aside : Aside t s)
include aside

theorem spread : Spread s s.writeQueue := fun p queued q queued' =>
  aside.distinct p (aside.queued p queued) q (aside.queued q queued')

theorem parked : (s.cell t).awaitsContinuation = false := by
  have written := aside.written
  simp only [Operation.isWritten, Bool.and_eq_true, Bool.not_eq_true'] at written
  exact written.1.2

theorem unstaged : (s.cell t).segmentStaged = false := by
  have written := aside.written
  simp only [Operation.isWritten, Bool.and_eq_true, Bool.not_eq_true'] at written
  exact written.1.1

theorem deref_eq {p : OpId} (live : p ∈ s.live) : s.deref p = some p := aside.distinct.find_eq live

theorem queueFind_eq {p : OpId} (queued : p ∈ s.writeQueue) : s.queueFind p = some p :=
  aside.spread.find_eq queued

theorem foreign {q : OpId} (target : s.continuationTarget = some q) : q ≠ t := by
  rintro rfl
  obtain ⟨-, awaits⟩ := aside.route q target
  rw [aside.parked] at awaits
  cases awaits

theorem noted (op : OpId) : Aside t (s.modify op fun c => { c with stopSeen := true }) := by
  have cell (i : OpId) :
    (s.cell i).SameWire ((s.modify op fun c => { c with stopSeen := true }).cell i) :=
    (s.modify_quiet op _ ⟨⟨rfl, rfl, rfl, rfl⟩, rfl, rfl, rfl, rfl, id⟩).cells i
  have agrees : s.Agrees (s.modify op fun c => { c with stopSeen := true }) :=
    s.modify_agrees op _ fun _ => ⟨rfl, rfl, rfl, rfl⟩
  refine ⟨aside.distinct.sublist agrees (.refl _), aside.queued, aside.keys, ?_, ?_, aside.held,
    aside.here, ?_, ?_, ?_⟩
  · exact fun entry member => (cell entry.2).tag.trans (aside.stamped entry member)
  · intro entry member q queued same
    rw [(cell entry.2).addr, (cell q).addr] at same
    exact aside.separate entry member q queued same
  · exact fun q target =>
      ⟨(aside.route q target).1, (cell q).awaitsContinuation.trans (aside.route q target).2⟩
  · exact (cell t).isWritten.trans aside.written
  · have plain := aside.plain
    rwa [Operation.cancelWritten,
      Option.map_eq_none_iff, ← (cell t).command, ← Option.map_eq_none_iff] at plain

end Aside

namespace ContextCore.Alike

variable {t : OpId} {l r : ContextCore}

theorem lookup (alike : Alike t l r) (left : (l.registry.map (·.1)).Nodup)
    (right : (r.registry.map (·.1)).Nodup)
    (tag : Tag) : (ContextCore.lookup r.registry tag).filter (· != t) =
    (ContextCore.lookup l.registry tag).filter (· != t) := by
  have one (registry : List (Tag × OpId)) (keys : (registry.map (·.1)).Nodup) :
    ∀ x ∈ registry, ∀ y ∈ registry, (x.1 == tag) = true → (y.1 == tag) = true → x = y := by
    intro x member y member' same same'
    exact List.inj_on_of_nodup_map keys member member'
      ((beq_iff_eq.mp same).trans (beq_iff_eq.mp same').symm)
  have inward (registry : List (Tag × OpId)) (keys : (registry.map (·.1)).Nodup) :
      (ContextCore.lookup registry tag).filter (· != t) =
      ContextCore.lookup (registry.filter (·.2 != t)) tag := by
    rw [ContextCore.lookup, ContextCore.lookup, ← find_filter _ _ (one registry keys),
      Option.filter_map]
    rfl
  rw [inward _ left, inward _ right, alike.registry]

theorem absorb_self (response : UntaggedResponse) {s : ContextCore} {p : OpId}
    (own : s.deref p = none ∨ s.deref p = some t) : Alike t s (absorb response s p) := by
  rw [ContextCore.absorb]
  rcases own with absent | own
  · rw [absent]
    exact emit_self s _ rfl
  · rw [own]
    exact modify_self s (·.onUntagged response) fun _ => ⟨rfl, rfl, rfl, rfl⟩

theorem absorb (alike : Alike t l r) (left : Spread l l.live) (right : Spread r r.live)
    (response : UntaggedResponse)
    (p : OpId) : Alike t (ContextCore.absorb response l p) (ContextCore.absorb response r p) := by
  rcases found_alike (alike.deref left right p) with ⟨op, other, found, found'⟩ | ⟨own, own'⟩
  · rw [ContextCore.absorb, ContextCore.absorb, found, found']
    exact alike.modify other _
  · exact ((absorb_self response own).symm.trans alike).trans (absorb_self response own')

theorem absorbAll (response : UntaggedResponse) (ops : List OpId) (alike : Alike t l r)
    (left : Spread l l.live)
    (right : Spread r r.live) (live : t ∈ ops → t ∈ l.live) :
    Alike t (ops.foldl (ContextCore.absorb response) l)
    ((ops.filter (· != t)).foldl (ContextCore.absorb response) r) := by
  induction ops generalizing l r with
  | nil => exact alike
  | cons p ops ih =>
    have agrees (s : ContextCore) := absorb_agrees response s p
    have kept (s : ContextCore) (spread : Spread s s.live) :
        Spread (ContextCore.absorb response s p) (ContextCore.absorb response s p).live :=
      spread.sublist (agrees s) ((agrees s).live ▸ .refl _)
    have later : t ∈ ops → t ∈ (ContextCore.absorb response l p).live := fun member =>
      (agrees l).live ▸ live (.tail _ member)
    by_cases same : p = t
    · subst same
      have own : l.deref p = some p := left.find_eq (live List.mem_cons_self)
      rw [List.filter_cons_of_neg (by simp), List.foldl_cons]
      exact ih ((absorb_self response (.inr own)).symm.trans alike) (kept l left) right later
    · rw [List.filter_cons_of_pos (by simpa using same), List.foldl_cons, List.foldl_cons]
      exact ih (alike.absorb left right response p) (kept l left) (kept r right) later

/-- Data that no other queued command wants is routed among the others as if the one were not
    there. -/
theorem routed_without {s : ContextCore} {response : UntaggedResponse}
    (owned : commandScoped response.kind = true)
    (spares : (s.writeQueue.find? fun op => (s.cell op).wantsUntagged response.kind) = some t →
      ∀ op ∈ s.writeQueue, (s.cell op).wantsUntagged response.kind = true → op = t) :
    Alike t (s.routeUntagged response).core
      (((s.writeQueue.filter (· != t)).find? fun op =>
        (s.cell op).wantsUntagged response.kind).elim s fun op =>
        s.modify op (·.onUntagged response)) := by
  simp only [ContextCore.routeUntagged, owned, if_true]
  by_cases first : (s.writeQueue.find? fun op => (s.cell op).wantsUntagged response.kind) = some t
  · have none : ((s.writeQueue.filter (· != t)).find? fun op =>
      (s.cell op).wantsUntagged response.kind) = none := by
      apply List.find?_eq_none.mpr
      intro op member wants
      obtain ⟨queued, other⟩ := List.mem_filter.mp member
      simp [spares first op queued wants] at other
    rw [none, first]
    exact (modify_self s (·.onUntagged response) fun _ => ⟨rfl, rfl, rfl, rfl⟩).symm
  · have same :
      ((s.writeQueue.filter (· != t)).find? fun op => (s.cell op).wantsUntagged response.kind) =
        s.writeQueue.find? fun op => (s.cell op).wantsUntagged response.kind := by
      apply find_without
      rintro op found
      have other : op ≠ t := fun same => first (same ▸ found)
      simpa using other
    rw [same]
    cases s.writeQueue.find? fun op => (s.cell op).wantsUntagged response.kind <;> exact .refl t _

theorem routeUntagged (alike : Alike t l r) (left : Aside t l) (right : Aside t r)
    {response : UntaggedResponse}
    (spares : commandScoped response.kind = true →
      (l.writeQueue.find? fun op => (l.cell op).wantsUntagged response.kind) = some t →
        ∀ op ∈ l.writeQueue, (l.cell op).wantsUntagged response.kind = true → op = t)
    (spares' : commandScoped response.kind = true →
      (r.writeQueue.find? fun op => (r.cell op).wantsUntagged response.kind) = some t →
        ∀ op ∈ r.writeQueue, (r.cell op).wantsUntagged response.kind = true → op = t) :
    Alike t (l.routeUntagged response).core (r.routeUntagged response).core := by
  by_cases owned : commandScoped response.kind = true
  · have same :
      ((r.writeQueue.filter (· != t)).find? fun op => (r.cell op).wantsUntagged response.kind) =
        (l.writeQueue.filter (· != t)).find? fun op => (l.cell op).wantsUntagged response.kind := by
      rw [alike.queue]
      apply List.find?_congr
      intro op member
      rw [alike.cell op (by simpa using (List.mem_filter.mp member).2)]
    refine ((routed_without owned (spares owned)).trans ?_).trans
      (routed_without owned (spares' owned)).symm
    rw [same]
    cases found :
      (l.writeQueue.filter (· != t)).find? fun op => (l.cell op).wantsUntagged response.kind with
    | none => exact alike
    | some op =>
      have member := (List.mem_filter.mp (List.mem_of_find?_eq_some found)).2
      exact alike.modify (by simpa using member) (·.onUntagged response)
  · have live (s : ContextCore) (aside : Aside t s) : t ∈ s.registry.map (·.2) → t ∈ s.live := by
      intro member
      obtain ⟨entry, registered, same⟩ := List.mem_map.mp member
      exact aside.queued t (aside.here entry registered same)
    have others : (r.registry.map (·.2)).filter (· != t) = (l.registry.map (·.2)).filter (· != t) := by
      have mapped := congrArg (List.map (·.2)) alike.registry
      simpa [List.filter_map, Function.comp_def] using mapped
    have told :=
      absorbAll response (l.registry.map (·.2)) alike left.distinct right.distinct (live l left)
    have told' := absorbAll response (r.registry.map (·.2)) (refl t r) right.distinct right.distinct
      (live r right)
    simp only [ContextCore.routeUntagged, owned]
    rw [others] at told'
    exact told.trans told'.symm

theorem connectionLost (alike : Alike t l r) (ec : ErrorCode) :
    Alike t (l.connectionLost ec).core (r.connectionLost ec).core := by
  obtain ⟨taken, -⟩ := alike.takeCells fun c => !c.isStaged
  have silent (s : ContextCore) :
      (if s.readRunning then [Event.shutdownRead] else []).filter (Event.tells t) = [] := by
    split <;> rfl
  simp only [ContextCore.connectionLost, alike.phase]
  split
  · exact alike
  · exact { taken.unsaid _ _ (silent l) (silent r) with phase := rfl, registry := rfl, target := rfl }

theorem extractBatch (alike : Alike t l r) (left : Aside t l) (right : Aside t r) (ops : List OpId) :
    Alike t (l.unlatchWrite.extractAll ops).1 (r.unlatchWrite.extractAll ops).1 ∧
      (r.unlatchWrite.extractAll ops).2.filter (· != t) =
      (l.unlatchWrite.extractAll ops).2.filter (· != t) :=
  alike.unlatchWrite.extractAll ops left.spread right.spread

theorem armWrite (alike : Alike t l r) (left : Aside t l) (right : Aside t r) {batch batch' : Batch}
    (ops : batch'.ops = batch.ops) : Alike t (l.armWrite batch).core (r.armWrite batch').core := by
  simp only [ContextCore.armWrite, alike.phase, alike.abandoned, ops]
  split
  · exact (alike.extractBatch left right batch.ops).1
  · exact alike.unsaid _ _ rfl rfl

theorem onWriteDone (alike : Alike t l r) (left : Aside t l) (right : Aside t r) (ec : Option ErrorCode)
    {batch batch' : Batch} (ops : batch'.ops = batch.ops) :
    Alike t (l.onWriteDone ec batch).core (r.onWriteDone ec batch').core := by
  cases ec with
  | none => exact alike
  | some ec =>
    simp only [ContextCore.onWriteDone, ops]
    exact (alike.extractBatch left right batch.ops).1

theorem writeQuiet (alike : Alike t l r) (left : Aside t l) (right : Aside t r) {batch batch' : Batch}
    (ops : batch'.ops = batch.ops) : Alike t (l.writeQuiet batch).core (r.writeQuiet batch').core := by
  obtain ⟨extracted, retired⟩ := alike.extractBatch left right batch.ops
  simp only [ContextCore.writeQuiet, ops]
  exact extracted.dispose retired

theorem writeFlushed (alike : Alike t l r) (left : Aside t l) (right : Aside t r) {batch batch' : Batch}
    (ops : batch'.ops = batch.ops) :
    Alike t (l.writeFlushed batch).core (r.writeFlushed batch').core := by
  simp only [ContextCore.writeFlushed, alike.phase, ops]
  split
  · exact alike.unlatchWrite.flushLoop batch.ops left.spread right.spread left.parked right.parked _ _
  · exact (alike.extractBatch left right batch.ops).1

theorem emplace_filter {registry : List (Tag × OpId)} {tag : Tag} {op : OpId} (other : op ≠ t)
    (free : ∀ entry ∈ registry, entry.2 = t → entry.1 ≠ tag) :
    (ContextCore.emplace registry tag op).filter (·.2 != t) =
    ContextCore.emplace (registry.filter (·.2 != t)) tag op := by
  have present : (registry.filter (·.2 != t)).any (·.1 == tag) = registry.any (·.1 == tag) := by
    rw [Bool.eq_iff_iff, List.any_eq_true, List.any_eq_true]
    constructor
    · rintro ⟨entry, member, same⟩
      exact ⟨entry, (List.mem_filter.mp member).1, same⟩
    · rintro ⟨entry, member, same⟩
      refine ⟨entry, List.mem_filter.mpr ⟨member, ?_⟩, same⟩
      have apart : entry.2 ≠ t := fun own => free entry member own (beq_iff_eq.mp same)
      simpa using apart
  rw [ContextCore.emplace, ContextCore.emplace, present]
  split
  · rfl
  · simp [other]

theorem register (alike : Alike t l r) {op : OpId} (other : op ≠ t)
    (free : ∀ entry ∈ l.registry, entry.2 = t → entry.1 ≠ (l.cell op).tag)
    (free' : ∀ entry ∈ r.registry, entry.2 = t → entry.1 ≠ (r.cell op).tag) :
    Alike t (l.register op) (r.register op) := by
  refine { alike.unsaid [.enqueued op] [.enqueued op] rfl rfl with queue := ?_, registry := ?_ }
  · simp [alike.queue]
  · simp only [register_registry]
    rw [emplace_filter other free', emplace_filter other free, alike.registry, alike.cell op other]

/-- A cell is registered under a tag that the written command does not have. -/
theorem enqueueOperation (alike : Alike t l r) (left : Aside t l) (right : Aside t r) {op : OpId}
    (post post' : Bool)
    (other : op ≠ t) (live : op ∈ l.live) (live' : op ∈ r.live)
    (free : ∀ entry ∈ l.registry, entry.2 = t → entry.1 ≠ (l.cell op).tag)
    (free' : ∀ entry ∈ r.registry, entry.2 = t → entry.1 ≠ (r.cell op).tag) :
    Alike t (l.enqueueOperation op post).core (r.enqueueOperation op post').core := by
  have registered := alike.register other free free'
  have taken : Alike t ((l.register op).takeStopRequest op) ((r.register op).takeStopRequest op) :=
    registered.modify other _
  have spread (s : ContextCore) (aside : Aside t s) (live : op ∈ s.live) :
      Spread ((s.register op).takeStopRequest op) ((s.register op).takeStopRequest op).writeQueue := by
    have fits : Spread s (s.writeQueue ++ [op]) := by
      have inside : ∀ p ∈ s.writeQueue ++ [op], p ∈ s.live := by
        intro p member
        rcases List.mem_append.mp member with queued | same
        · exact aside.queued p queued
        · exact List.mem_singleton.mp same ▸ live
      exact fun p member q member' => aside.distinct p (inside p member) q (inside q member')
    intro p member q member' same
    have addr (i : OpId) : (((s.register op).takeStopRequest op).cell i).addr = (s.cell i).addr := by
      by_cases own : i = op
      · subst own
        simp [takeStopRequest]
      · simp [takeStopRequest, own]
    exact fits p member q member' (by simpa only [addr] using same)
  simp only [ContextCore.enqueueOperation, alike.phase, alike.cell op other]
  split
  · split
    · exact (taken.extract (spread l left live) (spread r right live') op).unregister _
    · exact registered
  · exact alike

theorem erase_own {registry : List (Tag × OpId)} (keys : (registry.map (·.1)).Nodup) {tag : Tag}
    (entry : (tag, t) ∈ registry) :
    (ContextCore.erase registry tag).filter (·.2 != t) = registry.filter (·.2 != t) := by
  rw [erase_filter, ContextCore.erase, List.filter_eq_self]
  intro other member
  obtain ⟨inside, apart⟩ := List.mem_filter.mp member
  by_contra same
  have same : other.1 = tag := by simpa using same
  rw [List.inj_on_of_nodup_map keys inside entry same] at apart
  simp at apart

theorem findAndDetach_self {s : ContextCore} (aside : Aside t s)
    (opened : s.phase = .opened) {tag : Tag}
    (own : ContextCore.lookup s.registry tag = none ∨ ContextCore.lookup s.registry tag = some t)
    (expected : Option OpId) :
    Alike t s (s.findAndDetachLocked tag expected).1 := by
  rw [ContextCore.findAndDetachLocked]
  rcases own with absent | own
  · rw [absent]
    exact refl t s
  · have entry := mem_of_lookup own
    have cell := aside.deref_eq (aside.held opened _ entry)
    have erased : Alike t s (s.unregister tag) :=
      { refl t s with registry := erase_own aside.keys entry }
    have taken : Alike t s ((s.extractFromQueueLocked t).1.unregister tag) := by
      have extracted : Alike t s (s.extractFromQueueLocked t).1 :=
        extract_self (.inr (aside.queueFind_eq (aside.here _ entry rfl)))
      exact erased.trans (extracted.unregister tag)
    rw [own]
    simp only [ContextCore.detachLocked, cell, aside.plain, aside.written]
    split
    · exact refl t s
    · split
      · exact taken
      · exact taken

theorem detachLocked (alike : Alike t l r) (left : Spread l l.writeQueue)
    (right : Spread r r.writeQueue) {p : OpId}
    (other : p ≠ t) (tag : Tag) (cell : l.deref p = some p) (cell' : r.deref p = some p) :
    Alike t (l.detachLocked tag p).1 (r.detachLocked tag p).1 := by
  simp only [ContextCore.detachLocked, cell, cell', alike.cell p other]
  split
  · exact (alike.extract left right p).unregister tag
  · split
    · exact alike.modify other fun _ => _
    · split
      · exact (alike.extract left right p).unregister tag
      · exact (alike.modify other _).unregister tag

theorem cancelWith (alike : Alike t l r) (left : Aside t l) (right : Aside t r) (tag : Tag)
    (expected : Option OpId) :
    Alike t (l.cancelWith tag expected).core (r.cancelWith tag expected).core := by
  simp only [ContextCore.cancelWith, alike.phase]
  split
  · exact alike
  · next opened =>
    have opened : l.phase = .opened := by simpa using opened
    rcases found_alike (alike.lookup left.keys right.keys tag) with ⟨p, other, found,
      found'⟩ | ⟨own, own'⟩
    · have cell := left.deref_eq (left.held opened _ (mem_of_lookup found))
      have cell' := right.deref_eq (right.held (alike.phase.trans opened) _ (mem_of_lookup found'))
      have same : r.sameAddress p = l.sameAddress p := funext (alike.sameAddress p)
      simp only [ContextCore.findAndDetachLocked, found, found', same]
      split
      · exact alike
      · exact alike.detachLocked left.spread right.spread other tag cell cell'
    · exact ((findAndDetach_self left opened own expected).symm.trans alike).trans
        (findAndDetach_self right (alike.phase.trans opened) own' expected)

theorem requestStop (alike : Alike t l r) (left : Aside t l) (right : Aside t r) (op : OpId) :
    Alike t (l.requestStop op).core (r.requestStop op).core := by
  simp only [ContextCore.requestStop, alike.tag op]
  have noted := alike.change op (fun c => { c with stopSeen := true }) fun _ => ⟨rfl, rfl, rfl, rfl⟩
  exact noted.cancelWith (left.noted op) (right.noted op) _ _

/-- A tagged reply to the written command itself, or to none. -/
theorem dispatchTagged_self {s : ContextCore} (aside : Aside t s) {response : TaggedResponse}
    (rest : List Bytes)
    (own : ContextCore.lookup s.registry response.tag = none ∨
    ContextCore.lookup s.registry response.tag = some t) :
    Alike t s (s.dispatchTagged response rest).core := by
  rw [dispatchTagged_core]
  rcases own with absent | own
  · rw [absent]
    exact refl t s
  · have entry := mem_of_lookup own
    have queued := aside.here _ entry rfl
    rw [own]
    have kept : (s.forget response.tag t).continuationTarget = s.continuationTarget := by
      simp only [forget_continuationTarget]
      cases target : s.continuationTarget with
      | none => rfl
      | some q =>
        rw [Option.any_some, if_neg]
        intro same
        have apart : t ≠ q := (aside.foreign target).symm
        exact apart (aside.distinct t (aside.queued t queued) q (aside.route q target).1
          (by simpa [ContextCore.sameAddress] using same))
    have forgotten : Alike t s (s.forget response.tag t) :=
      { refl t s with target := kept, registry := erase_own aside.keys entry }
    exact forgotten.trans (extract_self (.inr (aside.queueFind_eq queued)))

theorem forget (alike : Alike t l r) (tag : Tag) (p : OpId) :
    Alike t (l.forget tag p) (r.forget tag p) := by
  have same : r.sameAddress p = l.sameAddress p := funext (alike.sameAddress p)
  refine { alike with target := ?_, registry := ?_ }
  · simp only [forget_continuationTarget, alike.target, same]
  · simp only [forget_registry]
    rw [erase_filter, erase_filter, alike.registry]

theorem dispatchTagged (alike : Alike t l r) (left : Aside t l) (right : Aside t r)
    (response : TaggedResponse)
    (rest : List Bytes) :
    Alike t (l.dispatchTagged response rest).core (r.dispatchTagged response rest).core := by
  rcases found_alike (alike.lookup left.keys right.keys response.tag)
    with ⟨p, other, found, found'⟩ | ⟨own, own'⟩
  · rw [dispatchTagged_core, dispatchTagged_core, found, found']
    exact (alike.forget response.tag p).extract left.spread right.spread p
  · exact ((dispatchTagged_self left rest own).symm.trans alike).trans
      (dispatchTagged_self right rest own')

theorem dispatchContinuation (alike : Alike t l r) (left : Aside t l) (right : Aside t r)
    (rest : List Bytes) :
    Alike t (l.dispatchContinuation rest).core (r.dispatchContinuation rest).core := by
  simp only [ContextCore.dispatchContinuation, alike.target]
  cases target : l.continuationTarget with
  | none => exact alike
  | some p =>
    have unrouted :
      Alike t { l with continuationTarget := none } { r with continuationTarget := none } :=
      { alike with target := rfl }
    have cell : ContextCore.deref { l with continuationTarget := none } p = some p :=
      left.deref_eq (left.route p target).1
    have cell' : ContextCore.deref { r with continuationTarget := none } p = some p :=
      right.deref_eq (right.route p (alike.target.trans target)).1
    simp only [cell, cell']
    exact (unrouted.modify (left.foreign target) _).unsaid _ _ rfl rfl

theorem readLoop (alike : Alike t l r) (left : Aside t l) (right : Aside t r) (texts : List Bytes) :
    Alike t (l.readLoop texts).core (r.readLoop texts).core := by
  cases texts with
  | nil => exact alike
  | cons text rest =>
    simp only [ContextCore.readLoop, dispatch]
    split
    · exact alike
    · exact alike.dispatchTagged left right _ rest
    · next response _ =>
      have silent : ((makeUnsolicitedEvent response).toList.map Event.unsolicited).filter
          (Event.tells t) = [] := by
        apply List.filter_eq_nil_iff.mpr
        intro event member
        obtain ⟨told, -, rfl⟩ := List.mem_map.mp member
        simp [Event.tells]
      exact { alike.unsaid _ _ silent silent with byeReceived := by simp [dispatchUntagged,
        alike.byeReceived] }
    · exact alike.dispatchContinuation left right rest

theorem close (alike : Alike t l r) (left : Aside t l) (right : Aside t r) :
    Alike t l.close.core r.close.core := by
  obtain ⟨taken, pending⟩ := alike.takeCells fun c => !c.isWritten && !c.isStaged
  have unwritten (s : ContextCore) (aside : Aside t s) :
      (s.takeCellsLocked fun c => !c.isWritten && !c.isStaged).2.filter (· != t) =
        (s.takeCellsLocked fun c => !c.isWritten && !c.isStaged).2 := by
    apply List.filter_eq_self.mpr
    intro op member
    have waiting := (List.mem_filter.mp member).2
    have apart : op ≠ t := by
      rintro rfl
      simp [aside.written] at waiting
    simpa using apart
  rw [unwritten r right, unwritten l left] at pending
  have erased (ops : List OpId) (registry registry' : List (Tag × OpId))
      (same : registry'.filter (·.2 != t) = registry.filter (·.2 != t)) :
      (ops.foldl (fun registry op => ContextCore.erase registry (r.cell op).tag) registry').filter
      (·.2 != t) =
        (ops.foldl (fun registry op => ContextCore.erase registry (l.cell op).tag) registry).filter
        (·.2 != t) := by
    induction ops generalizing registry registry' with
    | nil => exact same
    | cons op ops ih =>
      rw [List.foldl_cons, List.foldl_cons, alike.tag op]
      apply ih
      rw [erase_filter, erase_filter, same]
  simp only [ContextCore.close, alike.phase]
  split
  · exact alike
  · exact { taken.unsaid [.shutdownRead] [.shutdownRead] rfl rfl with
      phase := rfl
      target := rfl
      registry := by simpa only [pending] using erased _ _ _ alike.registry }

theorem abandon (alike : Alike t l r) : Alike t l.abandon.core r.abandon.core := by
  obtain ⟨taken, -⟩ := alike.takeCells fun c => !c.isStaged
  simp only [ContextCore.abandon, alike.phase]
  split
  · exact alike
  · exact { taken.unsaid [.shutdownRead] [.shutdownRead] rfl rfl with
      phase := rfl, abandoned := rfl, registry := rfl, target := rfl }

end ContextCore.Alike

end Bkmail
