import Bkmail.Context.Conversation

namespace Bkmail

def Section.enqueued : Section → List OpId
  | .work (.enqueueOperation op _) _ => [op]
  | _ => []

namespace Section

variable {s : ContextCore} {sec : Section} {o : Outcome} {pending others : List Work}

theorem Runs.stays_opened (runs : sec.Runs s o) (ordered : sec.inOrder s = true)
    (opened : s.phase = .opened) :
    o.core.phase = .opened := by
  cases runs with
  | flush => simp only [ContextCore.postKick]; split <;> exact opened
  | cancel | requestStop | close | abandon | suspend | writeError | stopScheduled | fail | connectionLost | writeLost
  | readLost => cases ordered
  | reading => simp only [ContextCore.readReceiver]; split <;> [split <;> exact opened; exact opened]
  | enqueueOperation op post =>
    simp only [ContextCore.enqueueOperation, opened, if_true]
    split
    · rw [ContextCore.extract_eq]
      exact opened
    · exact opened
  | postKick => simp only [ContextCore.postKick]; split <;> exact opened
  | onTagged op r => exact (ContextCore.onTagged_agrees s op r).phase.trans opened
  | maybeFinishClose => simp [ContextCore.maybeFinishClose, opened]
  | kick =>
    have drained := (ContextCore.drain_agrees s.writeQueue s.newDrain).phase.trans opened
    simp only [ContextCore.kick]
    split
    · exact opened
    · split <;> exact drained
  | armWrite batch =>
    have extracted := (ContextCore.extractAll_agrees batch.ops s.unlatchWrite).phase.trans opened
    simp only [ContextCore.armWrite]
    split
    · exact extracted
    · exact opened
  | writeQuiet batch =>
      exact (ContextCore.extractAll_agrees batch.ops s.unlatchWrite).phase.trans opened
  | writeFlushed batch =>
    simp only [ContextCore.writeFlushed, opened, if_true]
    exact (ContextCore.flushLoop_agrees batch.number batch.ops s.unlatchWrite).phase.trans opened
  | armRead =>
    simp only [ContextCore.armRead, ContextCore.maybeFinishClose]
    split
    · simp [opened]
    · exact opened
  | readLoop texts =>
    cases texts with
    | nil => exact opened
    | cons text rest =>
      simp only [ContextCore.readLoop, ContextCore.dispatch]
      split
      · exact opened
      · next r _ =>
        rw [ContextCore.dispatchTagged_core]
        cases ContextCore.lookup s.registry r.tag with
        | none => exact opened
        | some p => exact (ContextCore.extract_agrees (s.forget r.tag p) p).phase.trans opened
      · exact opened
      · unfold ContextCore.dispatchContinuation
        split
        · exact opened
        · simp only
          split <;> exact opened
  | routeUntagged r => exact (ContextCore.routeUntagged_agrees s r).phase.trans opened
  | rearm => simp only [ContextCore.rearm]; split <;> exact opened
  | _ => exact opened

theorem enqueueOperation_opened {op : OpId} (opened : s.phase = .opened)
    (running : (s.cell op).stopSeen = false) (post : Bool) :
    s.enqueueOperation op post =
    { core := s.register op, left := if post then [.postKick] else [] } := by
  simp [ContextCore.enqueueOperation, opened, running]

theorem reply_some {r : TaggedResponse} (replies : sec.reply = some r) :
    ∃ text rest choice, sec = .work (.readLoop (text :: rest)) choice ∧
    Parser.parse text = some (.tagged r) := by
  unfold Section.reply at replies
  split at replies
  · next text rest choice =>
    split at replies
    · next parsed =>
      cases replies
      exact ⟨text, rest, choice, rfl, parsed⟩
    · cases replies
  · cases replies

theorem readLoop_unreplied {texts : List Bytes}
    (unreplied : Section.reply (.work (.readLoop texts) .go) = none) :
    (s.readLoop texts).core.writeQueue = s.writeQueue := by
  cases texts with
  | nil => rfl
  | cons text rest =>
    simp only [ContextCore.readLoop, ContextCore.dispatch]
    split
    · rfl
    · next r parsed => simp [Section.reply, parsed] at unreplied
    · rfl
    · unfold ContextCore.dispatchContinuation
      split
      · rfl
      · simp only
        split <;> rfl

/-- The reply to the first command in the queue ends it. -/
theorem Runs.answers (runs : sec.Runs s o) (ordered : sec.inOrder s = true)
    (custody : Custody s pending)
    (routing : TaggedRouting s) (attached : ∀ op ∈ s.writeQueue, (s.cell op).detached = false)
    {r : TaggedResponse}
    (replies : sec.reply = some r) :
    ∃ op rest, s.writeQueue.head? = some op ∧ o.core.writeQueue = s.writeQueue.tail ∧
      o.produced = [.onTagged op r, .dispose [op], .readLoop rest] := by
  obtain ⟨text, rest, choice, rfl, parsed⟩ := reply_some replies
  cases runs
  simp only [Section.inOrder, parsed, beq_iff_eq, Option.map_eq_some_iff] at ordered
  obtain ⟨op, first, tag⟩ := ordered
  obtain ⟨behind, queue⟩ := List.head?_eq_some_iff.mp first
  have queued : op ∈ s.writeQueue := List.mem_of_head? first
  have entry : ((s.cell op).tag, op) ∈ s.registry := by
    have only := routing.once op queued (attached op queued)
    have member : ((s.cell op).tag, op) ∈ s.registry.filter (·.2 == op) :=
      only ▸ List.mem_singleton.mpr rfl
    exact (List.mem_filter.mp member).1
  have found : ContextCore.lookup s.registry r.tag = some op := by
    cases search : ContextCore.lookup s.registry r.tag with
    | none => exact absurd tag (ContextCore.lookup_none search _ entry)
    | some p =>
      have same :=
        List.inj_on_of_nodup_map routing.keys (ContextCore.mem_of_lookup search) entry tag.symm
      exact congrArg some (congrArg Prod.snd same)
  have core : (s.readLoop (text :: rest)).core.writeQueue = s.writeQueue.erase op := by
    simp only [ContextCore.readLoop, ContextCore.dispatch, parsed, ContextCore.dispatchTagged_core,
      found, Option.elim_some]
    have search : (s.forget r.tag op).queueFind op = some op := custody.queueFind_eq queued
    simp [ContextCore.extractFromQueueLocked, search]
  refine ⟨op, rest, first, ?_, ?_⟩
  · rw [core, queue]
    simp
  · have left := dispatchTagged_registered custody found queued rest
    have armed : (s.dispatchTagged r rest).armed = [] := by
      unfold ContextCore.dispatchTagged
      split
      · rfl
      · split <;> rfl
    simp only [ContextCore.readLoop, ContextCore.dispatch, parsed, Outcome.produced, left, armed,
      List.append_nil]

theorem enqueued_cases (sec : Section) :
    (∃ op post choice, sec = .work (.enqueueOperation op post) choice) ∨ sec.enqueued = [] := by
  unfold Section.enqueued
  split
  · exact .inl ⟨_, _, _, rfl⟩
  · exact .inr rfl

/-- When nothing is cancelled, only a submission and a reply change the queue. -/
theorem Runs.queues (runs : sec.Runs s o) (ordered : sec.inOrder s = true) (opened : s.phase = .opened)
    (consumed : pending.Perm (sec.consumed ++ others)) (grounded : Grounded s pending)
    (unreplied : sec.reply = none)
    (attached : ∀ op ∈ s.writeQueue, (s.cell op).detached = false) (running : sec.cancels s = false) :
    o.core.writeQueue = s.writeQueue ++ sec.enqueued := by
  have stays := runs.stays_opened ordered opened
  rcases sec.enqueued_cases with ⟨op, post, choice, rfl⟩ | none
  · cases runs
    rw [enqueueOperation_opened opened running]
    rfl
  rw [none, List.append_nil]
  cases sec with
  | call c =>
    cases runs with
    | flush => simp only [ContextCore.postKick]; split <;> rfl
    | allocateTag | submit => rfl
    | _ => cases ordered
  | work w choice =>
    cases runs.routes consumed grounded with
    | idle _ _ _ queue => exact queue
    | register | revoke => cases none
    | reply texts =>
      cases runs
      exact readLoop_unreplied unreplied
    | purge _ _ draining => simp [stays] at draining
    | retire _ _ _ torn => exact absurd opened torn
    | drop _ _ torn => exact absurd opened torn
    | lift => cases ordered
    | flush batch _ retired _ flushed =>
      refine flushed.queue.trans (List.filter_eq_self.mpr fun op queued => ?_)
      simp [ContextCore.retires, attached op queued]
    | kick _ _ kicked => exact kicked.queue

theorem readLoop_onTagged {texts : List Bytes} {op : OpId} {r : TaggedResponse}
    (member : .onTagged op r ∈ (s.readLoop texts).produced) :
    Section.reply (.work (.readLoop texts) .go) = some r := by
  cases texts with
  | nil => simp [ContextCore.readLoop, Outcome.produced] at member
  | cons text rest =>
    simp only [ContextCore.readLoop, ContextCore.dispatch] at member
    split at member
    · simp [Outcome.produced] at member
    · next r' parsed =>
      have same : r = r' := by
        unfold ContextCore.dispatchTagged at member
        split at member
        · simp [Outcome.produced] at member
        · split at member
          · simp [Outcome.produced] at member
          · next q _ =>
            have both : op = q ∧ r = r' := by simpa [Outcome.produced] using member
            exact both.2
      simp [Section.reply, parsed, same]
    · simp [ContextCore.dispatchUntagged, Outcome.produced] at member
    · unfold ContextCore.dispatchContinuation at member
      split at member
      · simp [Outcome.produced] at member
      · simp only at member
        split at member <;> simp [Outcome.produced] at member

theorem Runs.hands_reply (runs : sec.Runs s o) {op : OpId} {r : TaggedResponse}
    (member : .onTagged op r ∈ o.produced) :
    sec.reply = some r := by
  cases runs.hands member rfl with
  | reply texts =>
    cases runs
    exact readLoop_onTagged member

end Section

/-- A response is given to the commands that it reaches. -/
theorem ContextCore.hearer_reaches {s : ContextCore} {commands : List OpId}
    (nodup : commands.Nodup) {n i : Nat}
    {op : OpId} (here : commands[i]? = some op) (queue : s.writeQueue = commands.drop n)
    (wants : ∀ op ∈ commands, ∀ kind,
    (s.cell op).wantsUntagged kind = (s.cell op).request.wantsUntagged kind)
    (registered : ∀ op, op ∈ s.registry.map (·.2) ↔ op ∈ s.writeQueue) (r : UntaggedResponse) :
    s.hearer r op = Said.reaches (commands.map fun op => (s.cell op).request) i ⟨n,
    commands.length, r⟩ := by
  obtain ⟨inside, itself⟩ := List.getElem?_eq_some_iff.mp here
  have request :
    (commands.map fun op => (s.cell op).request)[i]? = some (s.cell op).request := by simp [here]
  rw [Bool.eq_iff_iff]
  unfold ContextCore.hearer Said.reaches
  by_cases owned : commandScoped r.kind = true
  · have earlier : (((commands.map fun op => (s.cell op).request).take i).drop n).all (fun q =>
      !q.wantsUntagged r.kind) =
        ((commands.take i).drop n).all fun q => !(s.cell q).wantsUntagged r.kind := by
      rw [← List.map_take, ← List.map_drop, List.all_map, Bool.eq_iff_iff, List.all_eq_true,
        List.all_eq_true]
      refine forall₂_congr fun q member => ?_
      have known : q ∈ commands := List.mem_of_mem_take (List.mem_of_mem_drop member)
      simp [wants q known]
    rw [if_pos owned, queue, beq_iff_eq, find_drop_iff nodup here]
    simp only [request, earlier, owned, Option.any_some, Request.accepts,
      wants op (List.mem_of_getElem? here), inside,
      Bool.not_true, Bool.false_or, decide_true, Bool.and_true, Bool.and_eq_true,
      decide_eq_true_eq, and_assoc]
  · have after : op ∈ commands.drop n ↔ n ≤ i := by
      rw [List.mem_drop_iff_getElem]
      constructor
      · rintro ⟨j, bound, same⟩
        have place := (nodup.getElem_inj_iff).mp (same.trans itself.symm)
        omega
      · intro after
        refine ⟨i - n, by omega, ?_⟩
        have place : n + (i - n) = i := by omega
        simp only [place, itself]
    have broadcast : commandScoped r.kind = false := Bool.not_eq_true _ ▸ owned
    rw [if_neg owned, List.contains_iff_mem, registered, queue, after]
    simp [inside, broadcast, Request.accepts]

/-- A conversation up to now: the queue holds the commands that are not answered, and each command
    has absorbed what reaches it. -/
structure Conversed (c : Conversation) : Prop where
  run : GuardedRun Regular c.system
  opened : c.core.phase = .opened
  uncancelled : ∀ op < c.core.made,
    (c.core.cell op).stopped = false ∧ (c.core.cell op).stopSeen = false ∧
    (c.core.cell op).detached = false
  queue : c.core.writeQueue = c.commands.drop c.replies.length
  answered : c.replies.length ≤ c.commands.length
  placed : ∀ x ∈ c.said, x.command < x.known ∧ x.known ≤ c.commands.length
  heard : ∀ i op, c.commands[i]? = some op →
    (c.core.cell op).absorbed = (c.said.filter (Said.reaches c.requests i)).map (·.response)
  unheard : ∀ op < c.core.made, op ∉ c.commands → (c.core.cell op).absorbed = []
  handed : ∀ op r, .onTagged op r ∈ c.system.pending →
    ∃ i : Nat, c.commands[i]? = some op ∧ c.replies[i]? = some r
  told : ∀ op outcome, (op, outcome) ∈ outcomes c.core.log →
    ∃ (i : Nat) (r : TaggedResponse), c.commands[i]? = some op ∧ c.replies[i]? = some r ∧
      outcome = .value (mapStatusToEc r.status)

namespace Conversed

variable {c : Conversation}

theorem initial : Conversed {} where
  run := .start
  opened := rfl
  uncancelled _ made := absurd made (Nat.not_lt_zero _)
  queue := rfl
  answered := Nat.le_refl _
  placed := by simp
  heard := by simp [Conversation.commands, Conversation.core, enqueuedOps]
  unheard _ made := absurd made (Nat.not_lt_zero _)
  handed := by simp [System.pending]
  told := by simp [Conversation.core, outcomes]

theorem grounded (conversed : Conversed c) : Grounded c.core c.system.pending := .of_run conversed.run

theorem routing (conversed : Conversed c) : TaggedRouting c.core :=
  tagged_routing conversed.run conversed.opened

theorem attached (conversed : Conversed c) :
    ∀ op ∈ c.core.writeQueue, (c.core.cell op).detached = false := fun _ queued =>
  (conversed.uncancelled _ (conversed.grounded.queue_made queued)).2.2

theorem registered (conversed : Conversed c) (op : OpId) : op ∈ c.core.registry.map (·.2) ↔
    op ∈ c.core.writeQueue := by
  constructor
  · intro member
    obtain ⟨entry, registered, rfl⟩ := List.mem_map.mp member
    exact (conversed.routing.entries entry registered).1
  · intro queued
    have only := conversed.routing.once op queued (conversed.attached op queued)
    have member : ((c.core.cell op).tag, op) ∈ c.core.registry.filter (·.2 == op) :=
      only ▸ List.mem_singleton.mpr rfl
    exact List.mem_map.mpr ⟨_, (List.mem_filter.mp member).1, rfl⟩

theorem nodup_registered (conversed : Conversed c) : (c.core.registry.map (·.2)).Nodup := by
  have routing := conversed.routing
  refine List.Nodup.map_on ?_ (.of_map _ routing.keys)
  intro entry member other member' same
  refine Prod.ext ?_ same
  rw [← (routing.entries entry member).2.2, ← (routing.entries other member').2.2, same]

section Step

variable {sec : Section} {o : Outcome} {others : List Work}

theorem running (conversed : Conversed c) (ordered : sec.inOrder c.core = true)
    (consumed : c.system.pending.Perm (sec.consumed ++ others)) : sec.cancels c.core = false := by
  unfold Section.cancels
  split
  · cases ordered
  · cases ordered
  · next op post choice =>
    have pends : .enqueueOperation op post ∈ c.system.pending := consumed.symm.subset List.mem_cons_self
    have custody := conversed.grounded.custody
    exact (conversed.uncancelled op
      (custody.made op (custody.owned_live pends (List.mem_singleton.mpr rfl)))).2.1
  · rfl

theorem regular (ordered : sec.inOrder c.core = true) : Regular c.core c.system.pending sec := by
  constructor
  · intro allocates
    unfold Section.allocates at allocates
    split at allocates
    · exact of_decide_eq_true ordered
    · cases allocates
  · unfold Section.failsWrite
    split
    · cases ordered
    · rfl

theorem commands_step (conversed : Conversed c) (runs : sec.Runs c.core o)
    (ordered : sec.inOrder c.core = true)
    (consumed : c.system.pending.Perm (sec.consumed ++ others)) :
    enqueuedOps o.core.log = c.commands ++ sec.enqueued := by
  rcases runs.enqueues with ⟨log, -⟩ | ⟨op, post, rfl, -, log, -⟩
  · rw [log, Conversation.commands]
    rcases sec.enqueued_cases with ⟨op, post, choice, rfl⟩ | none
    · cases runs
      rw [Section.enqueueOperation_opened conversed.opened (conversed.running ordered consumed)] at log
      simp [enqueuedOps, Event.enqueued?] at log
    · rw [none, List.append_nil]
  · exact log

theorem queue_step (conversed : Conversed c) (runs : sec.Runs c.core o)
    (ordered : sec.inOrder c.core = true)
    (consumed : c.system.pending.Perm (sec.consumed ++ others)) :
    o.core.writeQueue = (c.commands ++ sec.enqueued).drop (c.replies ++ sec.reply.toList).length ∧
      (c.replies ++ sec.reply.toList).length ≤ (c.commands ++ sec.enqueued).length := by
  have queue := conversed.queue
  have answered := conversed.answered
  cases replies : sec.reply with
  | some r =>
    obtain ⟨op, rest, first, left, -⟩ :=
      runs.answers ordered conversed.grounded.custody conversed.routing
      conversed.attached replies
    obtain ⟨text, behind, choice, rfl, -⟩ := Section.reply_some replies
    have more : c.replies.length < c.commands.length := by
      apply List.length_lt_of_drop_ne_nil
      rw [← queue]
      exact fun none => by simp [none] at first
    rw [left, queue, List.tail_drop]
    exact ⟨by simp [Section.enqueued], by simpa [Section.enqueued] using Nat.succ_le_of_lt more⟩
  | none =>
    have queued :=
      runs.queues ordered conversed.opened consumed conversed.grounded replies conversed.attached
      (conversed.running ordered consumed)
    rw [queued, queue]
    simp only [Option.toList_none, List.append_nil, List.length_append]
    exact ⟨(List.drop_append_of_le_length answered).symm, by omega⟩

theorem made_of_command (conversed : Conversed c) {op : OpId} (known : op ∈ c.commands) :
    op < c.core.made :=
  conversed.grounded.enlisted.bound op known

theorem made_of_enqueued (conversed : Conversed c)
    (consumed : c.system.pending.Perm (sec.consumed ++ others)) {op : OpId}
    (submits : op ∈ sec.enqueued) : op < c.core.made ∧ op ∉ c.commands := by
  rcases sec.enqueued_cases with ⟨q, post, choice, rfl⟩ | none
  · cases List.mem_singleton.mp submits
    have pends : .enqueueOperation op post ∈ c.system.pending := consumed.symm.subset List.mem_cons_self
    have grounded := conversed.grounded
    exact ⟨grounded.custody.made op (grounded.custody.owned_live pends (List.mem_singleton.mpr rfl)),
      fun known => grounded.enlisted.once op known post pends⟩
  · simp [none] at submits

theorem requests_step (conversed : Conversed c) (runs : sec.Runs c.core o)
    (consumed : c.system.pending.Perm (sec.consumed ++ others)) :
    ((c.commands ++ sec.enqueued).map fun op => (o.core.cell op).request) =
      c.requests ++ sec.enqueued.map fun op => (c.core.cell op).request := by
  rw [List.map_append, Conversation.requests]
  congr 1
  · exact List.map_congr_left fun op known => (runs.fixed (conversed.made_of_command known)).request
  · exact List.map_congr_left fun op submits =>
      (runs.fixed (conversed.made_of_enqueued consumed submits).1).request

theorem absorbs_step (conversed : Conversed c) (runs : sec.Runs c.core o)
    (ordered : sec.inOrder c.core = true)
    (consumed : c.system.pending.Perm (sec.consumed ++ others)) {op : OpId} (made : op < c.core.made) :
    (o.core.cell op).absorbed = (c.core.cell op).absorbed ++ sec.heard c.core op := by
  have custody := conversed.grounded.custody
  refine runs.absorbs (conversed.running ordered consumed) conversed.nodup_registered ?_ made
  intro entry member
  have queued := (conversed.registered entry.2).mp (List.mem_map_of_mem member)
  exact custody.deref_eq (custody.queue_live queued)

theorem unanswered (conversed : Conversed c) (ordered : sec.inOrder c.core = true) {x : Said}
    (adds : x ∈ c.adds sec) :
    x.command < x.known ∧ x.known = c.commands.length := by
  obtain ⟨r, routes, rfl⟩ := List.mem_map.mp adds
  obtain ⟨choice, rfl⟩ := Section.routed_some (Option.mem_toList.mp routes)
  refine ⟨List.length_lt_of_drop_ne_nil fun none => ?_, rfl⟩
  have waiting : c.core.writeQueue.isEmpty = false := by simpa [Section.inOrder] using ordered
  rw [conversed.queue, none] at waiting
  cases waiting

theorem heard_step (conversed : Conversed c) {i : Nat} {op : OpId}
    (here : c.commands[i]? = some op) :
    sec.heard c.core op = ((c.adds sec).filter (Said.reaches c.requests i)).map (·.response) := by
  have grounded := conversed.grounded
  have wanting := Wanting.of_run conversed.run
  have reaches (r : UntaggedResponse) :=
    ContextCore.hearer_reaches grounded.enlisted.nodup here conversed.queue
    (fun op known => wanting op (grounded.enlisted.bound op known)) conversed.registered r
  rw [Section.heard, Conversation.adds, List.filter_map, List.map_map]
  simp only [reaches]
  exact (List.map_id _).symm

end Step

theorem reaches_append {requests more : List Request} {i : Nat} (inside : i < requests.length) :
    Said.reaches (requests ++ more) i = Said.reaches requests i := by
  funext x
  rw [Said.reaches, Said.reaches, List.getElem?_append_left inside,
    List.take_append_of_le_length (Nat.le_of_lt inside)]

section Step

variable {sec : Section} {o : Outcome} {others : List Work}

theorem hearer_known (conversed : Conversed c) {r : UntaggedResponse} {op : OpId}
    (hears : c.core.hearer r op = true) :
    op ∈ c.commands := by
  have queued : op ∈ c.core.writeQueue := by
    unfold ContextCore.hearer at hears
    split at hears
    · exact List.mem_of_find?_eq_some (beq_iff_eq.mp hears)
    · exact (conversed.registered op).mp (List.contains_iff_mem.mp hears)
  rw [conversed.queue] at queued
  exact List.mem_of_mem_drop queued

theorem absorbed_step (conversed : Conversed c) (runs : sec.Runs c.core o)
    (ordered : sec.inOrder c.core = true)
    (consumed : c.system.pending.Perm (sec.consumed ++ others)) {i : Nat} {op : OpId}
    (here : (c.commands ++ sec.enqueued)[i]? = some op) :
    (o.core.cell op).absorbed = ((c.said ++ c.adds sec).filter (Said.reaches
      (c.requests ++ sec.enqueued.map fun op => (c.core.cell op).request) i)).map (·.response) := by
  by_cases inside : i < c.commands.length
  · rw [List.getElem?_append_left inside] at here
    have made := conversed.made_of_command (List.mem_of_getElem? here)
    have known : i < c.requests.length := by simpa [Conversation.requests] using inside
    rw [reaches_append known, List.filter_append, List.map_append,
      conversed.absorbs_step runs ordered consumed made,
      conversed.heard i op here, conversed.heard_step here]
  · have submits : op ∈ sec.enqueued := by
      rw [List.getElem?_append_right (Nat.le_of_not_lt inside)] at here
      exact List.mem_of_getElem? here
    obtain ⟨made, fresh⟩ := conversed.made_of_enqueued consumed submits
    have deaf : sec.heard c.core op = [] := by
      apply List.filter_eq_nil_iff.mpr
      exact fun r _ hears => fresh (conversed.hearer_known hears)
    have none : (c.said ++ c.adds sec).filter (Said.reaches
        (c.requests ++ sec.enqueued.map fun op => (c.core.cell op).request) i) = [] := by
      apply List.filter_eq_nil_iff.mpr
      intro x member reaches
      have bound : x.known ≤ c.commands.length := by
        rcases List.mem_append.mp member with old | new
        · exact (conversed.placed x old).2
        · exact Nat.le_of_eq (conversed.unanswered ordered new).2
      simp only [Said.reaches, Bool.and_eq_true, decide_eq_true_eq] at reaches
      omega
    rw [none, conversed.absorbs_step runs ordered consumed made, conversed.unheard op made fresh, deaf]
    rfl

theorem handed_step (conversed : Conversed c) (runs : sec.Runs c.core o)
    (ordered : sec.inOrder c.core = true)
    (consumed : c.system.pending.Perm (sec.consumed ++ others)) {op : OpId} {r : TaggedResponse}
    (pends : .onTagged op r ∈ o.produced ++ others) :
    ∃ i : Nat, (c.commands ++ sec.enqueued)[i]? = some op ∧ (c.replies ++ sec.reply.toList)[i]? =
    some r := by
  rcases List.mem_append.mp pends with new | old
  · have replies := runs.hands_reply new
    obtain ⟨first, rest, head, -, produced⟩ :=
      runs.answers ordered conversed.grounded.custody conversed.routing
      conversed.attached replies
    have same : op = first := by simpa [produced] using new
    have here : c.commands[c.replies.length]? = some op := by
      rw [same, ← head, conversed.queue, List.head?_drop]
    have inside := (List.getElem?_eq_some_iff.mp here).1
    refine ⟨c.replies.length, ?_, by simp [replies]⟩
    rw [List.getElem?_append_left inside]
    exact here
  · obtain ⟨i, here, answered⟩ :=
      conversed.handed op r (consumed.symm.subset (List.mem_append_right _ old))
    refine ⟨i, ?_, ?_⟩
    · rw [List.getElem?_append_left (List.getElem?_eq_some_iff.mp here).1]
      exact here
    · rw [List.getElem?_append_left (List.getElem?_eq_some_iff.mp answered).1]
      exact answered

theorem told_step (conversed : Conversed c) (runs : sec.Runs c.core o)
    (ordered : sec.inOrder c.core = true)
    (consumed : c.system.pending.Perm (sec.consumed ++ others)) {op : OpId} {outcome : Delivery}
    (told : (op, outcome) ∈ outcomes o.core.log) :
    ∃ (i : Nat) (r : TaggedResponse), c.commands[i]? = some op ∧ c.replies[i]? = some r ∧
      outcome = .value (mapStatusToEc r.status) := by
  rw [runs.outcomes] at told
  rcases List.mem_append.mp told with old | new
  · exact conversed.told op outcome old
  · unfold Section.outcomes at new
    split at new
    · cases ordered
    · next q r choice =>
      obtain ⟨i, here, answered⟩ := conversed.handed q r (consumed.symm.subset List.mem_cons_self)
      have running :=
        (conversed.uncancelled q (conversed.made_of_command (List.mem_of_getElem? here))).1
      split at new
      · simp at new
      · rw [running] at new
        cases List.mem_singleton.mp new
        exact ⟨i, r, here, answered, rfl⟩
    · cases ordered
    · simp at new

theorem step (conversed : Conversed c) {system : System} (runs : sec.Runs c.core o)
    (ordered : sec.inOrder c.core = true)
    (run : GuardedRun Regular system) (core : system.core = o.core)
    (consumed : c.system.pending.Perm (sec.consumed ++ others))
    (produced : system.pending.Perm (o.produced ++ others)) :
    Conversed { system, replies := c.replies ++ sec.reply.toList, said := c.said ++ c.adds sec } := by
  have commands := conversed.commands_step runs ordered consumed
  obtain ⟨queue, answered⟩ := conversed.queue_step runs ordered consumed
  have requests := conversed.requests_step runs consumed
  rw [← core] at commands queue requests
  refine ⟨run, ?_, ?_, ?_, ?_, ?_, ?_, ?_, ?_, ?_⟩
  · change system.core.phase = .opened
    rw [core]
    exact runs.stays_opened ordered conversed.opened
  · intro op made
    change op < system.core.made at made
    simp only [Conversation.core, core] at made ⊢
    rcases runs.newcomer made with old | ⟨_, _, _, _, -, -, -, cell, -⟩
    · have kept := runs.uncancelled (conversed.running ordered consumed) old
      rw [kept.stopped, kept.stopSeen, kept.detached]
      exact conversed.uncancelled op old
    · rw [cell]
      exact ⟨rfl, rfl, rfl⟩
  · change system.core.writeQueue = (enqueuedOps system.core.log).drop _
    rw [commands]
    exact queue
  · change _ ≤ (enqueuedOps system.core.log).length
    rw [commands]
    exact answered
  · intro x member
    change _ ∧ _ ≤ (enqueuedOps system.core.log).length
    rw [commands, List.length_append]
    rcases List.mem_append.mp member with old | new
    · have placed := conversed.placed x old
      exact ⟨placed.1, Nat.le_add_right_of_le placed.2⟩
    · have placed := conversed.unanswered ordered new
      exact ⟨placed.1, Nat.le_add_right_of_le (Nat.le_of_eq placed.2)⟩
  · intro i op here
    change (enqueuedOps system.core.log)[i]? = some op at here
    change (system.core.cell op).absorbed = ((c.said ++ c.adds sec).filter (Said.reaches
      ((enqueuedOps system.core.log).map fun op => (system.core.cell op).request) i)).map (·.response)
    rw [commands] at here
    rw [commands, requests, core]
    exact conversed.absorbed_step runs ordered consumed here
  · intro op made unknown
    change op < system.core.made at made
    change op ∉ enqueuedOps system.core.log at unknown
    rw [commands, List.mem_append, not_or] at unknown
    simp only [Conversation.core, core] at made ⊢
    rcases runs.newcomer made with old | ⟨_, _, _, _, -, -, -, cell, -⟩
    · rw [conversed.absorbs_step runs ordered consumed old, conversed.unheard op old unknown.1]
      apply List.filter_eq_nil_iff.mpr
      exact fun r _ hears => unknown.1 (conversed.hearer_known hears)
    · rw [cell]
      rfl
  · intro op r pends
    change ∃ i : Nat, (enqueuedOps system.core.log)[i]? = some op ∧ _
    rw [commands]
    exact conversed.handed_step runs ordered consumed (produced.subset pends)
  · intro op outcome told
    change (op, outcome) ∈ outcomes system.core.log at told
    rw [core] at told
    obtain ⟨i, r, here, replied, same⟩ := conversed.told_step runs ordered consumed told
    refine ⟨i, r, ?_, ?_, same⟩
    · change (enqueuedOps system.core.log)[i]? = some op
      rw [commands, List.getElem?_append_left (List.getElem?_eq_some_iff.mp here).1]
      exact here
    · rw [List.getElem?_append_left (List.getElem?_eq_some_iff.mp replied).1]
      exact replied

end Step

theorem of_reachable (reached : conversations.Reachable c) : Conversed c := by
  refine reached.invariant Conversed initial ?_
  intro before after action _ conversed _ stepped
  obtain ⟨sec, selected, stepped⟩ := Option.bind_eq_some_iff.mp stepped
  split at stepped
  · next ordered =>
    obtain ⟨system, moved, rfl⟩ := Option.map_eq_some_iff.mp stepped
    obtain ⟨sec', o, others, selected', ran, core, consumed, produced⟩ := System.step_section moved
    cases selected.symm.trans selected'
    refine conversed.step (Section.runs ran) ordered (.next conversed.run ?_ moved) core
      consumed produced
    intro other same
    cases selected.symm.trans same
    exact regular ordered
  · cases stepped

theorem absorbed_hears (conversed : Conversed c) {i : Nat} {op : OpId}
    (here : c.commands[i]? = some op) :
    (c.core.cell op).absorbed = (c.hears i).filter fun r => (c.core.cell op).request.accepts r := by
  have request : c.requests[i]? = some (c.core.cell op).request := by simp [Conversation.requests, here]
  rw [conversed.heard i op here, Conversation.hears, List.filter_map, List.filter_filter]
  refine congrArg _ (List.filter_congr fun x member => ?_)
  obtain ⟨before, known⟩ := conversed.placed x member
  rw [Bool.eq_iff_iff]
  simp only [Said.reaches, request, Option.any_some, Function.comp_apply, Bool.and_eq_true,
    Bool.or_eq_true, decide_eq_true_eq, beq_iff_eq]
  constructor
  · exact fun reaches => ⟨reaches.1.2, .inr reaches⟩
  · rintro ⟨accepts, rfl | reaches⟩
    · simp [accepts, before]
    · exact reaches

theorem index_eq (conversed : Conversed c) {i j : Nat} {op : OpId} (here : c.commands[i]? = some op)
    (there : c.commands[j]? = some op) : j = i :=
  (List.getElem?_inj (List.getElem?_eq_some_iff.mp there).1 conversed.grounded.enlisted.nodup).mp
    (there.trans here.symm)

theorem delivered_reply (conversed : Conversed c) {i : Nat} {op : OpId}
    (here : c.commands[i]? = some op) {outcome : Delivery}
    (told : .delivered op outcome ∈ c.core.log) :
    ∃ reply, c.reply i = some reply ∧ outcome = .value (mapStatusToEc reply.1) := by
  obtain ⟨j, r, there, answered, rfl⟩ := conversed.told op outcome (mem_outcomes.mpr told)
  cases conversed.index_eq here there
  exact ⟨_, by rw [Conversation.reply, answered, Option.map_some], rfl⟩

theorem own_of_alone (conversed : Conversed c) {p : OpId} (only : c.commands = [p]) :
    c.hears 0 = c.said.map (·.response) := by
  rw [Conversation.hears, List.filter_eq_self.mpr]
  intro x member
  obtain ⟨before, known⟩ := conversed.placed x member
  have first : x.command = 0 := by
    rw [only, List.length_singleton] at known
    omega
  simp [first]

theorem absorbed_alone {alone : Conversation} (conversed : Conversed c) (lonely : Conversed alone)
    {i : Nat} {op p : OpId} (here : c.commands[i]? = some op) (only : alone.commands = [p])
    (request : (alone.core.cell p).request = (c.core.cell op).request)
    (said : alone.said.map (·.response) = c.hears i) :
    (alone.core.cell p).absorbed = (c.core.cell op).absorbed := by
  have first : alone.commands[0]? = some p := by rw [only]; rfl
  rw [lonely.absorbed_hears first, lonely.own_of_alone only, said, request, conversed.absorbed_hears here]

end Conversed

/-- A pipelined command absorbs what it takes of the answers to it and of those to earlier ones that
    come to it too, and its result is the one that it has alone, if the server says just this
    there. -/
theorem pipelining_transparent {c alone : Conversation} (pipelined : conversations.Reachable c)
    (single : conversations.Reachable alone) {i : Nat} {op p : OpId} (here : c.commands[i]? = some op)
    (only : alone.commands = [p]) (request : (alone.core.cell p).request = (c.core.cell op).request)
    (said : alone.said.map (·.response) = c.hears i) (reply : alone.reply 0 = c.reply i) :
    (c.core.cell op).absorbed = (c.hears i).filter (fun r => (c.core.cell op).request.accepts r) ∧
      (alone.core.cell p).absorbed = (c.core.cell op).absorbed ∧
      ∀ outcome outcome', .delivered op outcome ∈ c.core.log → .delivered p outcome' ∈ alone.core.log →
        outcome' = outcome := by
  have conversed := Conversed.of_reachable pipelined
  have lonely := Conversed.of_reachable single
  have first : alone.commands[0]? = some p := by rw [only]; rfl
  refine ⟨conversed.absorbed_hears here, conversed.absorbed_alone lonely here only request said,
    fun outcome outcome' told told' => ?_⟩
  obtain ⟨r, known, rfl⟩ := conversed.delivered_reply here told
  obtain ⟨r', known', rfl⟩ := lonely.delivered_reply first told'
  cases known'.symm.trans (reply.trans known)
  rfl

def selects (mailboxes : List Bytes) (texts : List Bytes) (sections : Nat) : List Action :=
  let threads := 2 * mailboxes.length + 2
  .resume 0 .go :: ((mailboxes.zipIdx 1).flatMap fun (mailbox, n) =>
    [.call .allocateTag, .call (.submit (tagText n) (.line (selectCommand mailbox)) (100 + n) true),
    .resume (2 * n + 1) .go]) ++
  [.call .flush, .resume (threads + 1) .done, .resume (threads + 1) .go, .resume (threads + 1) .go,
  .resume (threads + 1) .go, .resume (threads + 2) .done, .resume (threads + 2) .go,
  .resume (threads + 2) .go] ++ .resume 1 (.data texts) :: List.replicate sections (.resume 1 .go)

def untaggedOf (texts : List Bytes) : List UntaggedResponse :=
  texts.filterMap fun text => match Parser.parse text with
    | some (.untagged r) => some r
    | _ => none

/-- The mailbox `a` has an unseen message, and `b` is empty. -/
def pipelinedSelects : List Action :=
  selects [ascii "a", ascii "b"]
    [ascii "* 5 EXISTS", ascii "* OK [UNSEEN 3] x", ascii "a0001 OK done", ascii "* 0 EXISTS",
      ascii "a0002 OK done"] 11

def loneSelect (texts : List Bytes) : List Action :=
  selects [ascii "b"] (texts ++ [ascii "a0001 OK done"]) (2 * texts.length + 2)

/-- The second SELECT hears how many messages the first mailbox has, and which one is unseen. -/
theorem pipelining_transparent_select :
    ∃ c alone, conversations.Reachable c ∧ conversations.Reachable alone ∧
    .delivered 1 (.value none) ∈ c.core.log ∧
    (c.core.cell 1).absorbed = (c.hears 1).filter (fun r => (c.core.cell 1).request.accepts r) ∧
    (alone.core.cell 0).absorbed = (c.core.cell 1).absorbed := by
  obtain ⟨c, pipelined, here⟩ := conversations.reachable_of_trace
    pipelinedSelects
    (fun c => decide (c.commands[1]? = some 1 ∧
      (c.core.cell 1).request = .line (selectCommand (ascii "b")) ∧
      c.hears 1 = untaggedOf [ascii "* 5 EXISTS", ascii "* OK [UNSEEN 3] x", ascii "* 0 EXISTS"] ∧
      c.reply 1 = some (.ok, none, ascii "done") ∧
      Event.delivered 1 (.value none) ∈ c.core.log)) (by decide)
  obtain ⟨alone, single, there⟩ := conversations.reachable_of_trace
    (loneSelect [ascii "* 5 EXISTS", ascii "* OK [UNSEEN 3] x", ascii "* 0 EXISTS"])
    (fun c => decide (c.commands = [0] ∧ (c.core.cell 0).request = .line (selectCommand (ascii "b")) ∧
      c.said.map (·.response) = untaggedOf [ascii "* 5 EXISTS", ascii "* OK [UNSEEN 3] x",
      ascii "* 0 EXISTS"] ∧ c.reply 0 = some (.ok, none, ascii "done"))) (by decide)
  obtain ⟨second, request, hears, reply, told⟩ := of_decide_eq_true here
  obtain ⟨only, request', said, reply'⟩ := of_decide_eq_true there
  obtain ⟨absorbs, same, -⟩ :=
    pipelining_transparent pipelined single second only (request'.trans request.symm)
    (said.trans hears.symm) (reply'.trans reply.symm)
  exact ⟨c, alone, pipelined, single, told, absorbs, same⟩

/-- Against the answers to it alone, a command has the result that it has in the pipeline iff none
    of the answers to earlier commands comes to it. -/
theorem pipelining_transparent_iff {c alone : Conversation} (pipelined : conversations.Reachable c)
    (single : conversations.Reachable alone) {i : Nat} {op p : OpId} (here : c.commands[i]? = some op)
    (only : alone.commands = [p]) (request : (alone.core.cell p).request = (c.core.cell op).request)
    (said : alone.said.map (·.response) = c.own i) :
    (alone.core.cell p).absorbed = (c.core.cell op).absorbed ↔
      ∀ x ∈ c.said, x.command < i → x.reaches c.requests i = false := by
  have conversed := Conversed.of_reachable pipelined
  have lonely := Conversed.of_reachable single
  have first : alone.commands[0]? = some p := by rw [only]; rfl
  have asked : c.requests[i]? = some (c.core.cell op).request := by simp [Conversation.requests, here]
  have own : (alone.core.cell p).absorbed =
      (c.said.filter fun x => x.command == i && x.reaches c.requests i).map (·.response) := by
    rw [lonely.absorbed_hears first, lonely.own_of_alone only, said, request, Conversation.own,
      List.filter_map, List.filter_filter]
    refine congrArg _ (List.filter_congr fun x member => ?_)
    obtain ⟨before, known⟩ := conversed.placed x member
    rw [Bool.eq_iff_iff]
    simp only [Said.reaches, asked, Option.any_some, Function.comp_apply, Bool.and_eq_true, beq_iff_eq]
    constructor
    · rintro ⟨accepts, rfl⟩
      simp [accepts, before]
    · exact fun reaches => ⟨reaches.2.1.2, reaches.1⟩
  rw [own, conversed.heard i op here]
  constructor
  · intro same x member earlier
    by_contra reaches
    have lengths := congrArg List.length same
    rw [List.length_map, List.length_map, ← List.filter_filter,
      List.length_filter_eq_length_iff] at lengths
    have itself := lengths x (List.mem_filter.mpr ⟨member, Bool.not_eq_false _ ▸ reaches⟩)
    exact Nat.ne_of_lt earlier (beq_iff_eq.mp itself)
  · intro none
    refine congrArg _ (List.filter_congr fun x member => ?_)
    by_cases itself : x.command = i
    · simp [itself]
    · have apart : x.reaches c.requests i = false := by
        by_contra reaches
        have bound : x.command ≤ i := by
          simp only [Bool.not_eq_false, Said.reaches, Bool.and_eq_true, decide_eq_true_eq] at reaches
          exact reaches.1.1.1
        exact reaches (none x member (Nat.lt_of_le_of_ne bound itself))
      simp [apart]

/-- Alone the second SELECT does not hear of an unseen message. -/
theorem pipelining_leaks_unseen : ∃ c alone, conversations.Reachable c ∧ conversations.Reachable alone ∧
    alone.said.map (·.response) = c.own 1 ∧
      (alone.core.cell 0).absorbed ≠ (c.core.cell 1).absorbed := by
  obtain ⟨c, pipelined, here⟩ := conversations.reachable_of_trace
    pipelinedSelects
    (fun c => decide (c.commands[1]? = some 1 ∧
      (c.core.cell 1).request = .line (selectCommand (ascii "b")) ∧
      c.own 1 = untaggedOf [ascii "* 0 EXISTS"] ∧
      ¬ ∀ x ∈ c.said, x.command < 1 → x.reaches c.requests 1 = false)) (by decide)
  obtain ⟨alone, single, there⟩ := conversations.reachable_of_trace
    (loneSelect [ascii "* 0 EXISTS"])
    (fun c => decide (c.commands = [0] ∧ (c.core.cell 0).request = .line (selectCommand (ascii "b")) ∧
      c.said.map (·.response) = untaggedOf [ascii "* 0 EXISTS"])) (by decide)
  obtain ⟨second, request, own, leaks⟩ := of_decide_eq_true here
  obtain ⟨only, request', said⟩ := of_decide_eq_true there
  have told : alone.said.map (·.response) = c.own 1 := said.trans own.symm
  exact ⟨c, alone, pipelined, single, told, fun same => leaks
    ((pipelining_transparent_iff pipelined single second only (request'.trans request.symm) told).mp
    same)⟩

end Bkmail
