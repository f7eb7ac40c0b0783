import Bkmail.Context.Routing
import Bkmail.Context.Transport

namespace Bkmail

/-! Tags are unique as long as the counter has not gone round. -/

def ContextCore.allocated (s : ContextCore) : Nat := s.tags.length + s.made

def ContextCore.stamps (s : ContextCore) : List Tag :=
  s.tags ++ (List.range s.made).map fun op => (s.cell op).tag

def Section.allocates : Section → Bool
  | .call .allocateTag => true
  | _ => false

def Section.failsWrite : Section → Bool
  | .work (.writing _) (.failed _) => true
  | _ => false

def Regular (core : ContextCore) (_ : List Work) (sec : Section) : Prop :=
  (sec.allocates = true → core.allocated + 1 < 2 ^ 64) ∧ sec.failsWrite = false

instance (core : ContextCore) (pending : List Work) (sec : Section) :
    Decidable (Regular core pending sec) :=
  inferInstanceAs (Decidable (_ ∧ _))

/-- Sections take tags from the counter, stamp cells with them, and leave them alone otherwise. -/
theorem Section.Runs.stamps {s : ContextCore} {sec : Section} {o : Outcome} (runs : sec.Runs s o) :
    o.core.tagCounter = s.tagCounter ∧ o.core.allocated = s.allocated ∧ o.core.stamps.Perm s.stamps ∨
      sec.allocates = true ∧ o.core.tagCounter = (s.tagCounter + 1) % 2 ^ 64 ∧
        o.core.allocated = s.allocated + 1 ∧ o.core.stamps.Perm (tagText s.tagCounter :: s.stamps) := by
  obtain ⟨acted, acts, quiet⟩ := runs.acts
  have kept : acted.tags = s.tags ∧ acted.tagCounter = s.tagCounter → acted.made = s.made →
      o.core.tagCounter = s.tagCounter ∧ o.core.allocated = s.allocated ∧
      o.core.stamps.Perm s.stamps := by
    intro tags made
    have tags' := quiet.tags.1.trans tags.1
    have made' := quiet.made.trans made
    refine ⟨quiet.tags.2.trans tags.2, by simp only [ContextCore.allocated, tags', made'], ?_⟩
    simp only [ContextCore.stamps, tags', made']
    refine .of_eq (congrArg _ (List.map_congr_left fun op member => ?_))
    exact (runs.fixed (List.mem_range.mp member)).tag
  cases acts with
  | allocateTag =>
    cases runs
    refine .inr ⟨rfl, rfl, ?_, ?_⟩
    · simp only [ContextCore.allocated, ContextCore.allocateTag, List.length_append,
        List.length_singleton]
      omega
    · simp only [ContextCore.stamps, ContextCore.allocateTag, List.append_assoc]
      exact List.perm_middle
  | attach tag request addr callbackPath free =>
    cases runs
    refine .inl ⟨rfl, ?_, ?_⟩
    · have shorter := List.length_erase_of_mem free
      have some := List.length_pos_of_mem free
      simp only [ContextCore.allocated, ContextCore.attach, shorter]
      omega
    · have older : ∀ op ∈ List.range s.made, (Function.update s.cell s.made
          (Operation.attach addr tag request callbackPath) op).tag = (s.cell op).tag := by
        intro op member
        rw [Function.update_of_ne (Nat.ne_of_lt (List.mem_range.mp member))]
      have stamped : (Operation.attach addr tag request callbackPath).tag = tag := rfl
      simp only [ContextCore.stamps, ContextCore.attach, List.range_succ, List.map_append,
        List.map_cons, List.map_nil, Function.update_self, stamped]
      rw [List.map_congr_left older, ← List.append_assoc]
      refine List.perm_append_comm.trans ?_
      exact (List.perm_cons_erase free).symm.append_right _
  | kick =>
    have agrees := ContextCore.drain_agrees s.writeQueue s.newDrain
    exact .inl (kept ⟨agrees.tags, agrees.tagCounter⟩ agrees.made)
  | flush batch =>
    have agrees := ContextCore.flushLoop_agrees batch.number batch.ops s.unlatchWrite
    exact .inl (kept ⟨agrees.tags, agrees.tagCounter⟩ agrees.made)
  | _ => exact .inl (kept ⟨rfl, rfl⟩ rfl)

/-- Every tag in use is the text of a number the counter has had, and none is used twice. -/
structure Numbered (core : ContextCore) : Prop where
  counter : core.tagCounter = (core.allocated + 1) % 2 ^ 64
  distinct : core.stamps.Nodup
  numbered : ∀ tag ∈ core.stamps, ∃ k ≤ core.allocated, tag = tagText k

namespace Numbered

variable {core : ContextCore}

theorem preserved {sec : Section} {o : Outcome} {pending : List Work} (numbered : Numbered core)
    (runs : sec.Runs core o) (regular : Regular core pending sec) : Numbered o.core := by
  rcases runs.stamps with ⟨counter, allocated, stamps⟩ | ⟨allocates, counter, allocated, stamps⟩
  · refine ⟨by rw [counter, allocated, numbered.counter], stamps.nodup_iff.mpr numbered.distinct, ?_⟩
    intro tag member
    rw [allocated]
    exact numbered.numbered tag (stamps.subset member)
  · have bound := regular.1 allocates
    have current : core.tagCounter = core.allocated + 1 := by
      rw [numbered.counter, Nat.mod_eq_of_lt bound]
    refine ⟨by rw [counter, current, allocated], stamps.nodup_iff.mpr ?_, ?_⟩
    · refine List.nodup_cons.mpr ⟨fun member => ?_, numbered.distinct⟩
      obtain ⟨k, small, same⟩ := numbered.numbered _ member
      have := tagText_injective same
      omega
    · intro tag member
      rcases List.mem_cons.mp (stamps.subset member) with rfl | old
      · exact ⟨core.tagCounter, by omega, rfl⟩
      · obtain ⟨k, small, same⟩ := numbered.numbered tag old
        exact ⟨k, by omega, same⟩

theorem of_run {s : System} (run : GuardedRun Regular s) : Numbered s.core :=
  run.invariant (fun core _ => Numbered core) (fun _ _ _ _ numbered => numbered)
    ⟨by decide, by simp [ContextCore.stamps], by simp [ContextCore.stamps]⟩
    fun _ _ _ _ _ _ numbered regular runs => numbered.preserved runs regular

theorem unique (numbered : Numbered core) {p q : OpId} (madeP : p < core.made) (madeQ : q < core.made)
    (same : (core.cell p).tag = (core.cell q).tag) : p = q :=
  List.inj_on_of_nodup_map (List.nodup_append.mp numbered.distinct).2.1 (List.mem_range.mpr madeP)
    (List.mem_range.mpr madeQ) same

end Numbered

theorem CellStep.stays_attached {s t : ContextCore} {sec : Section} {op : OpId}
    (step : CellStep s sec t op)
    (attached : (t.cell op).detached = false) : (s.cell op).detached = false := by
  cases step with
  | same wire | stage _ _ _ _ wire | flush _ _ _ _ wire | «continue» _ _ _ _ _ _ _ _ wire
  | done _ _ _ _ _ _ _ _ _ _ _ _ wire | tagged _ _ wire => exact wire.detached.symm.trans attached
  | detach _ _ _ _ _ _ _ _ _ _ wire =>
    rw [wire.detached] at attached
    cases attached

structure Complete (core : ContextCore) (pending : List Work) : Prop where
  written : ∀ ec retired, .writeFailed ec retired ∉ pending ∧ .writeLost ec retired ∉ pending
  registered : core.phase = .opened → ∀ op ∈ core.writeQueue, (core.cell op).detached = false →
    ((core.cell op).tag, op) ∈ core.registry

namespace Complete

variable {core : ContextCore} {pending others : List Work} {sec : Section} {o : Outcome}

theorem permuted {after : List Work} (perm : pending.Perm after) (complete : Complete core pending) :
    Complete core after where
  written ec retired := ⟨fun pends => (complete.written ec retired).1 (perm.symm.subset pends),
    fun pends => (complete.written ec retired).2 (perm.symm.subset pends)⟩
  registered := complete.registered

theorem written_step (complete : Complete core pending) (runs : sec.Runs core o)
    (consumed : pending.Perm (sec.consumed ++ others)) (regular : Regular core pending sec)
    (ec : ErrorCode)
    (retired : List OpId) :
    .writeFailed ec retired ∉ o.produced ++ others ∧ .writeLost ec retired ∉ o.produced ++ others := by
  have waiting : ∀ work ∈ others, work ∈ pending := fun work member =>
    consumed.symm.subset (List.mem_append_right _ member)
  constructor
  · intro pends
    rcases List.mem_append.mp pends with spawned | old
    · cases runs.spawns spawned rfl with
      | writeError batch => simp [Regular, Section.failsWrite] at regular
    · exact (complete.written ec retired).1 (waiting _ old)
  · intro pends
    rcases List.mem_append.mp pends with spawned | old
    · cases runs.spawns spawned rfl with
      | writeFailed =>
        exact (complete.written ec retired).1
          (Grounded.consumed_mem consumed (List.mem_singleton.mpr rfl))
    · exact (complete.written ec retired).2 (waiting _ old)

theorem preserved (complete : Complete core pending) (runs : sec.Runs core o)
    (consumed : pending.Perm (sec.consumed ++ others)) (grounded : Grounded core pending)
    (routed : Routed core pending) (numbered : Numbered core) (regular : Regular core pending sec) :
    Complete o.core (o.produced ++ others) := by
  refine ⟨complete.written_step runs consumed regular, ?_⟩
  intro opened op queued attached
  have before := runs.controls.opens opened
  have custody := grounded.custody
  have held := routed.held before
  have old : op ∈ core.writeQueue → ((core.cell op).tag, op) ∈ core.registry := fun queued =>
    complete.registered before op queued
      ((grounded.cell_step consumed runs (grounded.queue_made queued)).stays_attached attached)
  have tag : op ∈ core.writeQueue → (o.core.cell op).tag = (core.cell op).tag := fun queued =>
    (runs.fixed (grounded.queue_made queued)).tag
  have same : op ∈ core.writeQueue → o.core.registry = core.registry →
      ((o.core.cell op).tag, op) ∈ o.core.registry := by
    intro queued registry
    rw [tag queued, registry]
    exact old queued
  have erased : ∀ other, op ∈ core.writeQueue → other < core.made → op ≠ other →
      o.core.registry = ContextCore.erase core.registry (core.cell other).tag →
      ((o.core.cell op).tag, op) ∈ o.core.registry := by
    intro other queued made different registry
    rw [tag queued, registry]
    exact ContextCore.mem_erase.mpr ⟨old queued, fun same =>
      different (numbered.unique (grounded.queue_made queued) made same)⟩
  have taken : ∀ key p, ContextCore.lookup core.registry key = some p → op ∈ core.writeQueue.erase p →
      o.core.registry = ContextCore.erase core.registry key →
      ((o.core.cell op).tag, op) ∈ o.core.registry := by
    intro key p found queued registry
    have entry := ContextCore.mem_of_lookup found
    obtain ⟨different, queued⟩ := (custody.nodup_queue.mem_erase_iff).mp queued
    exact erased p queued (routed.bound _ entry) different
      (registry.trans (by rw [routed.stamped _ entry]))
  cases runs.routes consumed grounded with
  | idle _ _ registry queue => exact same (queue ▸ queued) registry
  | register other post _ _ registry queue =>
    have pends : .enqueueOperation other post ∈ pending :=
      Grounded.consumed_mem consumed (List.mem_singleton.mpr rfl)
    rw [queue] at queued
    rcases List.mem_append.mp queued with queued | new
    · rw [tag queued, registry]
      exact ContextCore.emplace_old _ _ (old queued)
    · cases List.mem_singleton.mp new
      have made := custody.made op (custody.owned_live pends (List.mem_singleton.mpr rfl))
      rw [(runs.fixed made).tag, registry]
      refine ContextCore.emplace_new fun entry member same => ?_
      have itself :=
        numbered.unique (routed.bound entry member) made ((routed.stamped entry member).trans same)
      exact Routed.unregistered custody pends (itself ▸ held entry member)
  | revoke other post _ _ registry queue =>
    have pends : .enqueueOperation other post ∈ pending :=
      Grounded.consumed_mem consumed (List.mem_singleton.mpr rfl)
    rw [queue] at queued
    have live := custody.owned_live pends (List.mem_singleton.mpr rfl)
    refine erased other queued (custody.made other live) ?_ registry
    rintro rfl
    exact custody.owned_not_queued pends (List.mem_singleton.mpr rfl) queued
  | withdraw c key p other _ _ found cell _ registry queue =>
    rw [Routed.deref_eq custody held found] at cell
    cases cell
    exact taken key p found (queue ▸ queued) registry
  | detach c key p other _ _ found cell detached registry queue =>
    rw [Routed.deref_eq custody held found] at cell
    cases cell
    have entry := ContextCore.mem_of_lookup found
    refine erased p (queue ▸ queued)
      (routed.bound _ entry) ?_ (registry.trans (by rw [routed.stamped _ entry]))
    rintro rfl
    simp [detached] at attached
  | reply texts key p _ found registry queue =>
    have live := (held _ (ContextCore.mem_of_lookup found)).live custody
    rw [custody.extract_queue live] at queue
    exact taken key p found (queue ▸ queued) registry
  | purge _ _ draining => simp [draining] at opened
  | close _ draining => simp [draining] at opened
  | retire _ _ _ torn => exact absurd before torn
  | drop _ _ torn => exact absurd before torn
  | lift _ batch ec registry queue => exact same (List.mem_of_mem_filter (queue ▸ queued)) registry
  | flush batch _ retired _ flushed registry =>
      exact same (List.mem_of_mem_filter (flushed.queue ▸ queued)) registry
  | kick _ _ kicked registry => exact same (kicked.queue ▸ queued) registry

theorem of_run {s : System} (run : GuardedRun Regular s) : Complete s.core s.pending :=
  run.invariant Complete (fun _ _ _ perm complete => complete.permuted perm) ⟨by simp, by simp⟩
    fun _ _ _ _ earlier consumed complete regular runs =>
      complete.preserved runs consumed (.of_run earlier)
      (.of_run earlier) (.of_run earlier) regular

end Complete

theorem parse_tagText {n : Nat} {line : Bytes} {response : ServerResponse}
    (parsed : Parser.parse (tagText n ++ byte ' ' :: line) = some response) :
    ∃ r, response = .tagged r ∧ r.tag = tagText n := by
  have first : Parser.parse (tagText n ++ byte ' ' :: line) =
    Parser.parseTagged (tagText n ++ byte ' ' :: line) := rfl
  have atom : Cursor.readAtom (tagText n ++ byte ' ' :: line) = (tagText n, byte ' ' :: line) := by
    have stop : isAtomChar (byte ' ') = false := by decide
    have whole := tagText_atomChars n
    simp [Cursor.readAtom, List.takeWhile_append_of_pos whole, List.dropWhile_append_of_pos whole, stop]
  rw [first] at parsed
  simp only [Parser.parseTagged, atom] at parsed
  split at parsed
  · cases parsed
  · split at parsed
    · cases parsed
    · split at parsed
      · cases parsed
      · cases parsed
      · cases parsed
      · obtain ⟨text, -, rfl⟩ := Option.map_eq_some_iff.mp parsed
        exact ⟨_, rfl, rfl⟩

/-- How tagged replies are routed: the registry maps each tag to the queued, attached cell that is
    stamped with it, and a reply with a tag of ours reaches the operation of that tag or is
    dropped. -/
structure TaggedRouting (core : ContextCore) : Prop where
  keys : (core.registry.map (·.1)).Nodup
  entries : ∀ entry ∈ core.registry, entry.2 ∈ core.writeQueue ∧ (core.cell entry.2).detached = false ∧
    (core.cell entry.2).tag = entry.1
  once : ∀ op ∈ core.writeQueue, (core.cell op).detached = false →
    core.registry.filter (·.2 == op) = [((core.cell op).tag, op)]
  replies : ∀ n line rest response, Parser.parse (tagText n ++ byte ' ' :: line) = some response →
    core.dispatch (tagText n ++ byte ' ' :: line) rest = { core, left := [.readLoop rest] } ∧
        (∀ op ∈ core.writeQueue, (core.cell op).tag = tagText n → (core.cell op).detached = true) ∨
      ∃ r op, response = .tagged r ∧ op ∈ core.writeQueue ∧
        (∀ other < core.made, (core.cell other).tag = tagText n ↔ other = op) ∧
        (core.dispatch (tagText n ++ byte ' ' :: line) rest).left =
        [.onTagged op r, .dispose [op], .readLoop rest]
  undiverged : ∀ r rest, .readLost ∉ (core.dispatchTagged r rest).left

theorem dispatchTagged_registered {core : ContextCore} {pending : List Work}
    (custody : Custody core pending)
    {r : TaggedResponse} {op : OpId} (found : ContextCore.lookup core.registry r.tag = some op)
    (queued : op ∈ core.writeQueue) (rest : List Bytes) :
    (core.dispatchTagged r rest).left = [.onTagged op r, .dispose [op], .readLoop rest] := by
  have search : (core.forget r.tag op).queueFind op = some op := custody.queueFind_eq queued
  simp only [ContextCore.dispatchTagged, found, ContextCore.extractFromQueueLocked, search]

/-- With no failed write and fewer than 2^64 tags, every tagged reply in the open phase goes to the
    operation that was submitted under its tag, or nowhere. -/
theorem tagged_routing {s : System} (run : GuardedRun Regular s) (opened : s.core.phase = .opened) :
    TaggedRouting s.core := by
  have custody := Custody.of_run run
  have routed := Routed.of_run run
  have numbered := Numbered.of_run run
  have complete := Complete.of_run run
  have queued : ∀ entry ∈ s.core.registry, entry.2 ∈ s.core.writeQueue := by
    intro entry member
    refine (routed.held opened entry member).resolve_right fun lifted => ?_
    obtain ⟨work, pends, lifted⟩ := List.mem_flatMap.mp lifted
    cases work <;> simp [Work.lifted] at lifted
    · exact (complete.written _ _).1 pends
    · exact (complete.written _ _).2 pends
  have reply : ∀ (r : TaggedResponse) op rest, ContextCore.lookup s.core.registry r.tag = some op →
      (s.core.dispatchTagged r rest).left = [.onTagged op r, .dispose [op], .readLoop rest] :=
      fun r op rest found =>
    dispatchTagged_registered custody found (queued _ (ContextCore.mem_of_lookup found)) rest
  refine ⟨routed.keys, fun entry member => ⟨queued entry member, routed.attached entry member,
    routed.stamped entry member⟩, ?_, ?_, ?_⟩
  · intro op member attached
    have entry := complete.registered opened op member attached
    have only : ∀ other ∈ s.core.registry, (other.2 == op) = (other == ((s.core.cell op).tag, op)) := by
      intro other present
      rw [Bool.eq_iff_iff, beq_iff_eq, beq_iff_eq]
      constructor
      · rintro rfl
        rw [routed.stamped other present]
      · rintro rfl
        rfl
    rw [List.filter_congr only, List.filter_beq, List.count_eq_one_of_mem (.of_map _ routed.keys) entry]
    rfl
  · intro n line rest response parsed
    obtain ⟨r, rfl, tag⟩ := parse_tagText parsed
    simp only [ContextCore.dispatch, parsed]
    cases found : ContextCore.lookup s.core.registry r.tag with
    | none =>
      refine .inl ⟨by simp only [ContextCore.dispatchTagged, found], fun op member same => ?_⟩
      by_contra attached
      have entry := complete.registered opened op member (Bool.not_eq_true _ ▸ attached)
      exact ContextCore.lookup_none found _ entry (same.trans tag.symm)
    | some op =>
      have entry := ContextCore.mem_of_lookup found
      refine .inr ⟨r, op, rfl, queued _ entry, fun other made => ?_, reply r op rest found⟩
      have stamped := (routed.stamped _ entry).trans tag
      constructor
      · intro same
        exact numbered.unique made (routed.bound _ entry) (same.trans stamped.symm)
      · rintro rfl
        exact stamped
  · intro r rest
    cases found : ContextCore.lookup s.core.registry r.tag with
    | none => simp [ContextCore.dispatchTagged, found]
    | some op => simp [reply r op rest found]

/-- A NOOP written, its reply not yet read. -/
theorem tagged_routing_noop : ∃ s, GuardedRun Regular s ∧ s.core.phase = .opened ∧
    s.core.registry = [(tagText 1, 0)] ∧ TaggedRouting s.core := by
  obtain ⟨s, run, here⟩ := GuardedRun.of_trace Regular noopInFlight
    (fun s => decide (s.core.phase = .opened ∧ s.core.registry = [(tagText 1, 0)])) (by decide)
  obtain ⟨opened, registered⟩ := of_decide_eq_true here
  exact ⟨s, run, opened, registered, tagged_routing run opened⟩

end Bkmail
