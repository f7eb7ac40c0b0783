import Bkmail.Session.Selected

namespace Bkmail

def Holder.feed : Holder → Option (Nat × Nat × Hook)
  | selected cell token | called cell token | running cell token => some (cell, token, .mailbox cell)
  | idling cell token => some (cell, token, .idle cell)
  | idleCalled _ | rebuilding .. | gone => none

namespace SelectedChain

def value (s : SelectedChain) : Option MailboxInfo :=
  match s.holder with
  | .selected cell _ | .called cell _ | .running cell _ | .idling cell _ => some (s.cells cell)
  | .idleCalled info | .rebuilding info _ => some info
  | .gone => none

def concerns (cell : Nat) (hook : Hook) : Bool := hook.cell == cell

/-- The one active entry for the cell of the snapshot is the handler of its holder. -/
structure Fed (s : SelectedChain) (cell token : Nat) (hook : Hook) : Prop where
  live : s.table.live (concerns cell) = [{ id := token, handler := hook }]
  kept : token ∉ s.finished

structure Folds (info : MailboxInfo) (s : SelectedChain) : Prop where
  entries : ∀ entry ∈ s.table.entries, entry.id < s.table.nextId ∧ entry.handler.cell < s.made
  finished : ∀ token ∈ s.finished, token < s.table.nextId
  value : ∀ now, s.value = some now → now = s.dispatched.foldl MailboxInfo.push info
  fed : ∀ cell token hook, s.holder.feed = some (cell, token, hook) → s.Fed cell token hook

theorem tell_other {s : SelectedChain} {hook : Hook} {cell : Nat} (event : UnsolicitedEvent)
    (other : hook.cell ≠ cell)
    (owned : ∀ own token, s.holder = .idling own token → own = cell) :
    ∃ cells, tell event s hook = { s with cells } ∧ cells cell = s.cells cell := by
  cases hook with
  | mailbox own => exact ⟨_, rfl, Function.update_of_ne (Ne.symm other) _ _⟩
  | idle own =>
    rw [tell]
    split
    · next current token holder =>
      have apart : current ≠ own :=
        fun same => other ((owned current token holder).symm.trans same).symm
      rw [if_neg apart]
      exact ⟨_, rfl, rfl⟩
    · exact ⟨_, rfl, rfl⟩

theorem tell_others {cell : Nat} (event : UnsolicitedEvent) {hooks : List Hook}
    (others : ∀ hook ∈ hooks, hook.cell ≠ cell)
    {s : SelectedChain} (owned : ∀ own token, s.holder = .idling own token → own = cell) :
    ∃ cells, hooks.foldl (tell event) s = { s with cells } ∧ cells cell = s.cells cell := by
  induction hooks generalizing s with
  | nil => exact ⟨_, rfl, rfl⟩
  | cons hook hooks ih =>
    obtain ⟨first, rest⟩ := List.forall_mem_cons.mp others
    obtain ⟨cells, told, same⟩ := tell_other event first owned
    rw [List.foldl_cons, told]
    obtain ⟨later, all, kept⟩ := ih rest (s := { s with cells }) owned
    exact ⟨later, all, kept.trans same⟩

theorem Fed.split {s : SelectedChain} {cell token : Nat} {hook : Hook} (fed : s.Fed cell token hook) :
    ∃ before after, s.table.snapshot = before ++ hook :: after ∧ (∀ other ∈ before, other.cell ≠ cell) ∧
      hook.cell = cell ∧ ∀ other ∈ after, other.cell ≠ cell := by
  have only : s.table.snapshot.filter (concerns cell) = [hook] := by
    rw [UnsolicitedTable.snapshot_filter, fed.live, List.map_singleton]
  obtain ⟨before, after, split, first, own, rest⟩ := List.filter_eq_cons_iff.mp only
  refine ⟨before, after, split, fun other member => ?_, beq_iff_eq.mp own, fun other member => ?_⟩
  · simpa [concerns] using first other member
  · simpa [concerns] using List.filter_eq_nil_iff.mp rest other member

theorem feed_idling {holder : Holder} {cell token own other : Nat} {hook : Hook}
    (feeds : holder.feed = some (cell, token, hook)) (idling : holder = .idling own other) :
    own = cell := by
  subst idling
  cases feeds
  rfl

/-- The handler that feeds the snapshot puts the push in, and ends the IDLE with the right one. -/
theorem tell_fed {s : SelectedChain} {cell token : Nat} {hook : Hook}
    (feeds : s.holder.feed = some (cell, token, hook))
    (event : UnsolicitedEvent) :
    ∃ cells, cells cell = (s.cells cell).push event ∧
      (tell event s hook = { s with cells } ∨
        tell event s hook = { s with
          cells, holder := .rebuilding ((s.cells cell).push event) true, finished :=
            token :: s.finished }) := by
  refine ⟨Function.update s.cells cell ((s.cells cell).push event), Function.update_self .., ?_⟩
  cases holder : s.holder with
  | selected own kept | called own kept | running own kept =>
    rw [holder] at feeds
    cases feeds
    exact .inl (by rw [tell, holder])
  | idling own kept =>
    rw [holder] at feeds
    cases feeds
    rw [tell, holder]
    dsimp only
    rw [if_pos rfl]
    split
    · exact .inr rfl
    · exact .inl rfl
  | idleCalled | rebuilding | gone =>
    rw [holder] at feeds
    cases feeds

/-- A push goes into the snapshot once. -/
theorem notify_fed {s : SelectedChain} {cell token : Nat} {hook : Hook}
    (feeds : s.holder.feed = some (cell, token, hook))
    (fed : s.Fed cell token hook) (event : UnsolicitedEvent) :
    ∃ cells, cells cell = (s.cells cell).push event ∧
      (s.notify event = { s with cells, dispatched := s.dispatched ++ [event] } ∨
        s.notify event = { s with
          cells, dispatched := s.dispatched ++ [event], holder :=
            .rebuilding ((s.cells cell).push event) true
          finished := token :: s.finished }) := by
  obtain ⟨before, after, split, first, -, rest⟩ := fed.split
  obtain ⟨early, told, same⟩ :=
    tell_others event first (s := { s with dispatched := s.dispatched ++ [event] })
    fun own other idling => feed_idling feeds idling
  obtain ⟨cells, pushed, kept | woken⟩ :=
    tell_fed (s := { s with cells := early, dispatched := s.dispatched ++ [event] })
    feeds event
  · obtain ⟨late, all, last⟩ :=
      tell_others event rest (s := { s with cells, dispatched := s.dispatched ++ [event] })
      fun own other idling => feed_idling feeds idling
    refine ⟨late, ?_, .inl ?_⟩
    · exact last.trans (pushed.trans (congrArg (MailboxInfo.push · event) same))
    · rw [notify, split, List.foldl_append, List.foldl_cons, told, kept, all]
  · obtain ⟨late, all, last⟩ := tell_others event rest
      (s := { s with
        cells, dispatched := s.dispatched ++ [event], holder :=
          .rebuilding ((early cell).push event) true
        finished := token :: s.finished }) nofun
    refine ⟨late, ?_, .inr ?_⟩
    · exact last.trans (pushed.trans (congrArg (MailboxInfo.push · event) same))
    · rw [notify, split, List.foldl_append, List.foldl_cons, told, woken, all, same]

theorem notify_unfed {s : SelectedChain} (unfed : s.holder.feed = none) (event : UnsolicitedEvent) :
    ∃ cells, s.notify event = { s with cells, dispatched := s.dispatched ++ [event] } := by
  have told (hooks : List Hook) (s : SelectedChain) (unfed : s.holder.feed = none) :
      ∃ cells, hooks.foldl (tell event) s = { s with cells } := by
    induction hooks generalizing s with
    | nil => exact ⟨_, rfl⟩
    | cons hook hooks ih =>
      have step : ∃ cells, tell event s hook = { s with cells } := by
        cases hook with
        | mailbox own => exact ⟨_, rfl⟩
        | idle own =>
          rw [tell]
          split
          · next holder =>
            rw [holder] at unfed
            cases unfed
          · exact ⟨_, rfl⟩
      obtain ⟨cells, told⟩ := step
      rw [List.foldl_cons, told]
      exact ih { s with cells } unfed
  exact told _ _ unfed

/-- A new cell with its handler carries the snapshot on. -/
theorem Folds.place {info now : MailboxInfo} {s : SelectedChain} (folds : s.Folds info)
    (current : s.value = some now)
    {hook : Nat → Hook} {holder : Nat → Nat → Holder} (own : ∀ cell, (hook cell).cell = cell)
    (feeds : ∀ cell token, (holder cell token).feed = some (cell, token, hook cell)) :
    (s.place now hook holder).Folds info := by
  have fresh : s.table.live (concerns s.made) = [] := by
    refine List.filter_eq_nil_iff.mpr fun entry member => ?_
    have earlier := (folds.entries entry member).2
    simp [concerns, Nat.ne_of_lt earlier]
  refine ⟨fun entry member => ?_, fun token member =>
    Nat.lt_succ_of_lt (folds.finished token member), ?_, ?_⟩
  · rcases UnsolicitedTable.mem_add member with old | rfl
    · obtain ⟨id, cell⟩ := folds.entries entry old
      exact ⟨Nat.lt_succ_of_lt id, Nat.lt_succ_of_lt cell⟩
    · exact ⟨Nat.lt_succ_self _, (own s.made).symm ▸ Nat.lt_succ_self _⟩
  · intro later same
    have placed : (s.place now hook holder).value = some now := by
      have fed := feeds s.made s.table.nextId
      rw [SelectedChain.value, SelectedChain.place]
      cases at_ : holder s.made s.table.nextId with
      | selected cell token | called cell token | running cell token | idling cell token =>
        rw [at_] at fed
        simp only [Holder.feed, Option.some.injEq, Prod.mk.injEq] at fed
        obtain ⟨rfl, -⟩ := fed
        simp
      | idleCalled | rebuilding | gone =>
        rw [at_] at fed
        cases fed
    rw [← Option.some.inj (placed.symm.trans same)]
    exact folds.value now current
  · intro cell token fed feeding
    cases (feeds _ _).symm.trans feeding
    refine ⟨?_, fun member => absurd (folds.finished _ member) (Nat.lt_irrefl _)⟩
    have concerned : concerns s.made (hook s.made) = true := by simp [concerns, own]
    change (s.table.add (hook s.made)).live _ = _
    rw [UnsolicitedTable.live_add, fresh, if_pos concerned, List.nil_append]

theorem Folds.retire {info : MailboxInfo} {s : SelectedChain} (folds : s.Folds info)
    {cell token : Nat} {hook : Hook}
    (feeds : s.holder.feed = some (cell, token, hook)) {holder : Holder} (unfed : holder.feed = none)
    (hands : ∀ now, ({ s with holder }).value = some now → s.value = some now) :
    (s.retire token holder).Folds info := by
  have active : { id := token, handler := hook } ∈ s.table.live (concerns cell) := by
    rw [(folds.fed cell token hook feeds).live]
    exact List.mem_singleton_self _
  have known := (folds.entries _ (List.mem_filter.mp active).1).1
  refine ⟨folds.entries, fun other member => ?_, fun now current =>
    folds.value now (hands now current), ?_⟩
  · rcases List.mem_cons.mp member with rfl | member
    · exact known
    · exact folds.finished other member
  · intro cell token hook feeding
    cases unfed.symm.trans feeding

theorem Folds.deactivate {info : MailboxInfo} {s : SelectedChain} (folds : s.Folds info)
    (token : Nat) {finished : List Nat}
    (fewer : finished ⊆ s.finished)
    (other : ∀ cell own hook, s.holder.feed = some (cell, own, hook) → own ≠ token) :
    { s with table := s.table.deactivate token, finished }.Folds info := by
  refine ⟨fun entry member => ?_, fun id member => folds.finished id (fewer member), folds.value, ?_⟩
  · obtain ⟨before, earlier, id, handler⟩ := UnsolicitedTable.mem_deactivate member
    rw [id, handler]
    exact folds.entries before earlier
  · intro cell own hook feeds
    obtain ⟨live, kept⟩ := folds.fed cell own hook feeds
    refine ⟨?_, fun member => kept (fewer member)⟩
    have spared : ∀ entry ∈ s.table.live (concerns cell), entry.id ≠ token := by
      rw [live]
      intro entry member
      rw [List.mem_singleton.mp member]
      exact other cell own hook feeds
    exact (UnsolicitedTable.live_deactivate spared).trans live

theorem start_folds {info : MailboxInfo} {s t : SelectedChain} {refusal : Option Refusal}
    (stepped : s.start refusal = some t) (folds : s.Folds info) : t.Folds info := by
  unfold start at stepped
  split at stepped
  · next cell token holder =>
    cases stepped
    refine ⟨folds.entries, folds.finished, fun now current => folds.value now ?_,
      fun own kept hook feeds => ?_⟩
    · rwa [value, holder]
    · obtain ⟨live, apart⟩ := folds.fed own kept hook (by rwa [holder])
      exact ⟨live, apart⟩
  · next cell token holder =>
    cases stepped
    exact folds.retire (by rw [holder]; rfl) rfl nofun
  · next cell token holder =>
    cases stepped
    exact folds.retire (by rw [holder]; rfl) rfl fun now current => by rwa [value, holder]
  · next now holder =>
    cases stepped
    exact folds.place (by rw [value, holder]) (fun _ => rfl) fun _ _ => rfl
  · cases stepped
    exact ⟨folds.entries, folds.finished, nofun, nofun⟩
  · next now holder =>
    cases stepped
    exact ⟨folds.entries, folds.finished, fun later current =>
      folds.value later (by rwa [value, holder]), nofun⟩
  · cases stepped

end SelectedChain

def UnsolicitedEvent.counts : UnsolicitedEvent → Bool
  | .exists _ | .recent _ | .expunge _ => true
  | .flagsUpdate _ | .capability _ | .bye .. | .greeting .. => false

/-- The counts are on their way and no handler is there for them: from the call of `idle` to the
    listener of its operation, and in the constructor of a successor. -/
def Holder.deaf : Holder → Bool
  | idleCalled _ | rebuilding .. => true
  | selected .. | called .. | running .. | idling .. | gone => false

namespace SelectedChain

def Heard (s : SelectedChain) (action : ChainAction) : Prop :=
  ∀ event, action = .event event → event.counts = true → s.holder.deaf = false

def hears (s : SelectedChain) : ChainAction → Bool
  | .event event => !(event.counts && s.holder.deaf)
  | _ => true

theorem heard_of_hears {s : SelectedChain} {action : ChainAction} (hears : s.hears action = true) :
    s.Heard action := by
  rintro event rfl counts
  simpa [SelectedChain.hears, counts] using hears

theorem push_uncounted {event : UnsolicitedEvent} (other : event.counts = false) (info : MailboxInfo) :
    info.push event = info := by
  cases event with
  | «exists» | recent | expunge => cases other
  | _ => rfl

theorem value_feed {s : SelectedChain} {cell token : Nat} {hook : Hook}
    (feeds : s.holder.feed = some (cell, token, hook)) :
    s.value = some (s.cells cell) := by
  rw [value]
  cases holder : s.holder with
  | selected | called | running | idling =>
    rw [holder] at feeds
    cases feeds
    rfl
  | idleCalled | rebuilding | gone =>
    rw [holder] at feeds
    cases feeds

theorem notify_folds {info : MailboxInfo} {s : SelectedChain} {event : UnsolicitedEvent}
    (heard : s.Heard (.event event))
    (folds : s.Folds info) : (s.notify event).Folds info := by
  have extended (now : MailboxInfo) (same : now = s.dispatched.foldl MailboxInfo.push info) :
      now.push event = (s.dispatched ++ [event]).foldl MailboxInfo.push info := by
    rw [List.foldl_append, List.foldl_cons, List.foldl_nil, same]
  cases feeds : s.holder.feed with
  | some feed =>
    obtain ⟨cell, token, hook⟩ := feed
    have fed := folds.fed cell token hook feeds
    have folded := extended _ (folds.value _ (value_feed feeds))
    obtain ⟨cells, pushed, kept | woken⟩ := notify_fed feeds fed event
    · rw [kept]
      refine ⟨folds.entries, folds.finished, fun now current => ?_, fun own kept hook feeds => ?_⟩
      · have stands := (value_feed (s := { s with cells, dispatched := _ }) feeds).symm.trans current
        rw [← Option.some.inj stands]
        exact pushed.trans folded
      · obtain ⟨live, apart⟩ := folds.fed own kept hook feeds
        exact ⟨live, apart⟩
    · rw [woken]
      have handed : (s.retire token .gone).Folds info := folds.retire feeds rfl nofun
      exact ⟨handed.entries, handed.finished, fun now current =>
        (Option.some.inj current).symm.trans folded, nofun⟩
  | none =>
    obtain ⟨cells, told⟩ := notify_unfed feeds event
    rw [told]
    refine ⟨folds.entries, folds.finished, fun now current => ?_,
      fun own kept hook fed => by cases feeds.symm.trans fed⟩
    have before : s.value = some now ∧ event.counts = false := by
      rw [value] at current ⊢
      cases holder : s.holder with
      | selected | called | running | idling =>
        rw [holder] at feeds
        cases feeds
      | idleCalled | rebuilding =>
        refine ⟨?_, ?_⟩
        · simpa [holder] using current
        · by_contra counts
          have hears := heard event rfl (Bool.not_eq_false _ ▸ counts)
          rw [holder] at hears
          cases hears
      | gone => simp [holder] at current
    have folded := extended now (folds.value now before.1)
    rwa [push_uncounted before.2] at folded

theorem step_folds {info : MailboxInfo} {s t : SelectedChain} {action : ChainAction}
    (stepped : s.step action = some t)
    (heard : s.Heard action) (folds : s.Folds info) : t.Folds info := by
  cases action with
  | start refusal => exact start_folds stepped folds
  | call =>
    unfold step at stepped
    dsimp only at stepped
    split at stepped
    · next cell token holder =>
      cases stepped
      refine ⟨folds.entries, folds.finished, fun now current => folds.value now ?_,
        fun own kept hook feeds => ?_⟩
      · rwa [value, holder]
      · obtain ⟨live, apart⟩ := folds.fed own kept hook (by rwa [holder])
        exact ⟨live, apart⟩
    · cases stepped
  | callIdle =>
    unfold step at stepped
    dsimp only at stepped
    split at stepped
    · next cell token holder =>
      cases stepped
      have current : s.value = some (s.cells cell) := by rw [value, holder]
      have let_go : ({ s with holder := .idleCalled (s.cells cell) }).Folds info :=
        ⟨folds.entries, folds.finished, fun now same => folds.value now (current.trans same), nofun⟩
      exact let_go.deactivate token (List.Subset.refl _) nofun
    · cases stepped
  | complete inDispatch =>
    unfold step at stepped
    dsimp only at stepped
    split at stepped
    · next cell token holder =>
      cases stepped
      exact folds.retire (by rw [holder]; rfl) rfl fun now current => by rwa [value, holder]
    · next cell token holder =>
      cases stepped
      exact folds.retire (by rw [holder]; rfl) rfl fun now current => by rwa [value, holder]
    · cases stepped
  | stop =>
    unfold step at stepped
    dsimp only at stepped
    split at stepped
    · next cell token holder =>
      cases stepped
      exact folds.retire (by rw [holder]; rfl) rfl nofun
    · next cell token holder =>
      cases stepped
      exact folds.retire (by rw [holder]; rfl) rfl nofun
    · cases stepped
  | register =>
    unfold step at stepped
    dsimp only at stepped
    split at stepped
    · next now inDispatch holder =>
      cases stepped
      exact folds.place (by rw [value, holder]) (fun _ => rfl) fun _ _ => rfl
    · cases stepped
  | event event =>
    unfold step at stepped
    dsimp only at stepped
    split at stepped
    · cases stepped
    · cases stepped
      exact notify_folds heard folds
  | destroy token =>
    unfold step at stepped
    dsimp only at stepped
    split at stepped
    · next done =>
      cases stepped
      refine folds.deactivate token List.erase_subset fun cell own hook feeds same => ?_
      exact (folds.fed cell own hook feeds).kept (same ▸ done)
    · cases stepped

end SelectedChain

/-- As long as no push is dispatched past the snapshot, `mailbox()` of every selected state is the
    fold of all the pushes since the SELECT. -/
theorem selected_folds {info : MailboxInfo} {s : SelectedChain}
    (run : (selectedChain info).Guarded SelectedChain.Heard s)
    {cell token : Nat} (selected : s.holder = .selected cell token) :
    s.cells cell = s.dispatched.foldl MailboxInfo.push info := by
  have folds : s.Folds info := by
    refine run.invariant (SelectedChain.Folds info) ?_ ?_
    · refine ⟨?_, ?_, fun now current => (Option.some.inj current).symm, nofun⟩
      · intro entry member
        cases member
      · intro token member
        cases member
    · exact fun before after action _ folds heard stepped =>
        SelectedChain.step_folds stepped heard folds
  exact folds.value _ (by rw [SelectedChain.value, selected])

/-- A message goes while a command runs, and an IDLE ends with the EXISTS that it waits for. -/
theorem selected_folds_idle :
    ∃ (s : SelectedChain) (cell token : Nat), s.holder = .selected cell token ∧
    s.dispatched = [.expunge 2, .exists 9] ∧ (s.cells cell).exists = 9 ∧
    s.cells cell = s.dispatched.foldl MailboxInfo.push { «exists» := 5 } := by
  obtain ⟨s, run, here⟩ := (selectedChain { «exists» := 5 }).guarded_of_trace
    SelectedChain.hears
    [.register, .call, .event (.expunge 2), .start none, .complete true, .register, .callIdle,
    .start none, .event (.exists 9), .register]
    (fun s => decide (s.holder = .selected 3 4 ∧ s.dispatched = [.expunge 2, .exists 9] ∧
    (s.cells 3).exists = 9))
    (fun _ _ hears => SelectedChain.heard_of_hears hears) (by decide +kernel)
  obtain ⟨selected, dispatched, nine⟩ := of_decide_eq_true here
  exact ⟨s, 3, 4, selected, dispatched, nine, selected_folds run selected⟩

/-- The EXISTS that comes between the call of `idle` and the start of its sender is lost. -/
theorem idle_misses_exists : ∃ (s : SelectedChain) (cell token : Nat), (selectedChain {}).Reachable s ∧
    s.holder = .selected cell token ∧ s.dispatched = [.exists 7] ∧ (s.cells cell).exists = 0 ∧
    s.cells cell ≠ s.dispatched.foldl MailboxInfo.push {} := by
  obtain ⟨s, run, here⟩ := (selectedChain {}).reachable_of_trace
    [.register, .callIdle, .event (.exists 7), .start none, .complete true, .register]
    (fun s => decide (s.holder = .selected 2 3 ∧ s.dispatched = [.exists 7] ∧ (s.cells 2).exists = 0))
    (by decide +kernel)
  obtain ⟨selected, dispatched, none⟩ := of_decide_eq_true here
  refine ⟨s, 2, 3, run, selected, dispatched, none, fun same => ?_⟩
  have counts := congrArg MailboxInfo.exists same
  rw [none, dispatched] at counts
  cases counts

end Bkmail
