import Bkmail.Context.Pipelining
import Bkmail.Context.Relay

namespace Bkmail

open Automaton

/-! What a party that watches the context from outside may rely on while nothing is submitted: no
command is begun that was not there before, and no reply is handed over that was not read. -/

def Begun (core : ContextCore) (pending : List Work) (op : OpId) : Prop :=
  core.sent op ≠ [] ∨
    core.phase = .opened ∧ (op ∈ core.writeQueue ∨ ∃ post, .enqueueOperation op post ∈ pending)

namespace Section

variable {core : ContextCore} {pending others : List Work} {sec : Section} {o : Outcome} {op : OpId}

/-- Only `submit` makes a command that can begin. -/
theorem Runs.begun (runs : sec.Runs core o) (consumed : pending.Perm (sec.consumed ++ others))
    (grounded : Grounded core pending) (plain : sec.attaches core = [])
    (begun : Begun o.core (o.produced ++ others) op) : Begun core pending op := by
  have nodup := grounded.custody.nodup_queue
  rcases begun with sent | ⟨opened, place⟩
  · rcases runs.stagings nodup with ⟨same, -, -⟩ | ⟨rfl, opened, -, kicked⟩
    · rw [ContextCore.sent_stagings, same, ← ContextCore.sent_stagings] at sent
      exact .inl sent
    · rw [kicked.sent nodup] at sent
      by_cases member : op ∈ core.reached core.writeQueue
      · exact .inr ⟨opened, .inl ((core.reached_sublist core.writeQueue).subset member)⟩
      · rw [if_neg member, List.append_nil] at sent
        exact .inl sent
  · refine .inr ⟨runs.controls.opens opened, ?_⟩
    rcases place with queued | ⟨post, pends⟩
    · rcases runs.queue with lost | ⟨q, post, rfl, -, grown⟩
      · exact .inl (lost.subset queued)
      · rcases List.mem_append.mp (grown.subset queued) with old | new
        · exact .inl old
        · rw [List.mem_singleton.mp new]
          exact .inr ⟨post, Grounded.consumed_mem consumed List.mem_cons_self⟩
    · rcases List.mem_append.mp pends with produced | other
      · cases runs.spawns produced rfl with
        | submit => simp [Section.attaches] at plain
      · exact .inr ⟨post, consumed.symm.subset (List.mem_append_right _ other)⟩

theorem Runs.fails_left (runs : sec.Runs core o) (taken : op ∈ sec.fails core) :
    o.core.phase ≠ .opened := by
  have lost (ec : ErrorCode) : (core.connectionLost ec).core.phase ≠ .opened := by
    rcases core.connectionLost_routes ec with ⟨closed, same⟩ | ⟨draining, -⟩
    · simp [same, closed]
    · simp [draining]
  have left (phase : core.phase ≠ .opened) : o.core.phase ≠ .opened :=
    fun opened => phase (runs.controls.opens opened)
  cases runs with
  | close =>
    by_cases phase : core.phase = .opened
    · simp [ContextCore.close, phase]
    · exact left phase
  | connectionLost ec => exact lost ec
  | readLost => exact lost _
  | writeLost ec retired => exact lost ec
  | armWrite batch => exact left fun opened => by simp [Section.fails, opened] at taken
  | writeFlushed batch => exact left fun opened => by simp [Section.fails, opened] at taken
  | enqueueOperation q post => exact left fun opened => by simp [Section.fails, opened] at taken
  | _ => cases taken

theorem Controls.reads_le (controls : sec.Controls core o) :
    readsOf o.produced ≤ readsOf sec.consumed := by
  cases controls with
  | idle _ _ _ _ reads => exact reads.le
  | teardown _ _ _ _ _ _ _ _ _ _ reads => exact reads.le
  | writeEnd _ _ _ _ _ _ _ none => simp [none]
  | readEnd _ _ _ _ _ _ _ none => simp [none]
  | _ => simp [Outcome.produced, consumed, Work.reads]

/-- The dispatch loop runs over what was read. -/
theorem run_texts {texts : List Bytes} (ran : sec.run core = some o)
    (member : .readLoop texts ∈ o.produced) :
    sec = .work .reading (.data texts) ∨ ∃ text choice,
    sec = .work (.readLoop (text :: texts)) choice := by
  have count := (Section.runs ran).controls.reads_le
  have reads : 0 < readsOf o.produced := List.countP_pos_iff.mpr ⟨_, member, rfl⟩
  cases sec with
  | call c =>
    rw [consumed, readsOf_nil] at count
    omega
  | work w choice =>
    cases w with
    | reading =>
      left
      cases choice with
      | data read =>
        cases ran
        unfold ContextCore.readReceiver at member
        split at member <;> simp [Outcome.produced] at member
        rw [member]
      | go | done => cases ran
      | failed | eof =>
        cases ran
        unfold ContextCore.readReceiver at member
        split at member <;> simp [Outcome.produced] at member
    | readLoop left =>
      right
      cases choice <;> cases ran
      cases left with
      | nil => simp [ContextCore.readLoop, Outcome.produced] at member
      | cons text rest =>
        refine ⟨text, .go, ?_⟩
        have same : texts = rest := by
          simp only [ContextCore.readLoop, ContextCore.dispatch] at member
          split at member
          · simp [Outcome.produced] at member
          · unfold ContextCore.dispatchTagged at member
            split at member
            · simpa [Outcome.produced] using member
            · split at member <;> simp_all [Outcome.produced]
          · simpa [Outcome.produced, ContextCore.dispatchUntagged] using member
          · unfold ContextCore.dispatchContinuation at member
            split at member
            · simp [Outcome.produced] at member
            · simp only at member
              split at member <;> simpa [Outcome.produced] using member
        rw [same]
    | armRead =>
      cases choice <;> cases ran
      unfold ContextCore.armRead at member
      split at member <;> simp [Outcome.produced] at member
    | onReadFailed =>
      cases choice <;> cases ran
      simp [ContextCore.onReadFailed, Outcome.produced] at member
    | rearm =>
      cases choice <;> cases ran
      unfold ContextCore.rearm at member
      split at member <;> simp [Outcome.produced] at member
    | readLost =>
      cases choice <;> cases ran
      unfold ContextCore.readLost ContextCore.connectionLost at member
      split at member <;> simp [Outcome.produced] at member
    | readStop =>
      cases choice <;> cases ran
      simp [ContextCore.readStop, Outcome.produced] at member
    | _ => exact absurd (Nat.lt_of_lt_of_le reads count) (Nat.lt_irrefl 0)

end Section

/-- What the sections have still to dispatch or to hand over are replies that are known, and while
    the connection is up each goes to the cell it is for. -/
structure Vouched (known : TaggedResponse → Prop) (core : ContextCore)
    (pending : List Work) : Prop where
  texts : ∀ texts, .readLoop texts ∈ pending →
    ∀ text ∈ texts, ∀ r, Parser.parse text = some (.tagged r) → known r
  replies : core.phase = .opened → ∀ op r, .onTagged op r ∈ pending →
    known r ∧ (core.cell op).tag = r.tag ∧ op < core.made

namespace Vouched

variable {known : TaggedResponse → Prop} {core : ContextCore} {pending others : List Work}
    {sec : Section} {o : Outcome}

theorem permuted {after : List Work} (perm : pending.Perm after)
    (vouched : Vouched known core pending) :
    Vouched known core after :=
  ⟨fun texts member => vouched.texts texts (perm.symm.subset member),
    fun opened op r member => vouched.replies opened op r (perm.symm.subset member)⟩

theorem initial : Vouched known {} [.armRead] := ⟨by simp, by simp⟩

theorem mono {more : TaggedResponse → Prop} (vouched : Vouched known core pending)
    (grows : ∀ r, known r → more r) :
    Vouched more core pending :=
  ⟨fun texts member text inside r parsed => grows r (vouched.texts texts member text inside r parsed),
    fun opened op r member => (vouched.replies opened op r member).imp_left (grows r)⟩

theorem dispatched (runs : sec.Runs core o) (grounded : Grounded core pending)
    (routed : Routed core pending)
    (opened : core.phase = .opened) {op : OpId} {r : TaggedResponse}
    (member : .onTagged op r ∈ o.produced) :
    (core.cell op).tag = r.tag ∧ op < core.made := by
  cases runs.hands member rfl with
  | reply texts _ p _ found search =>
    have entry := ContextCore.mem_of_lookup found
    have live := (routed.held opened _ entry).live grounded.custody
    have queued := List.mem_of_find?_eq_some search
    have address : core.sameAddress p op = true := List.find?_some search
    have same : p = op := grounded.custody.distinct p live op (grounded.custody.queue_live queued)
      (by simpa [ContextCore.sameAddress] using address)
    subst same
    exact ⟨routed.stamped _ entry, routed.bound _ entry⟩

theorem preserved (ran : sec.run core = some o) (consumed : pending.Perm (sec.consumed ++ others))
    (grounded : Grounded core pending) (routed : Routed core pending)
    (read : ∀ texts, sec = .work .reading (.data texts) →
      ∀ text ∈ texts, ∀ r, Parser.parse text = some (.tagged r) → known r)
    (vouched : Vouched known core pending) : Vouched known o.core (o.produced ++ others) := by
  have runs := Section.runs ran
  have waiting {w : Work} (member : w ∈ others) : w ∈ pending :=
    consumed.symm.subset (List.mem_append_right _ member)
  refine ⟨fun texts member => ?_, fun opened op r member => ?_⟩
  · rcases List.mem_append.mp member with produced | other
    · rcases Section.run_texts ran produced with reading | ⟨text, choice, rfl⟩
      · exact read texts reading
      · intro later inside
        have loop := Grounded.consumed_mem consumed List.mem_cons_self
        exact vouched.texts _ loop later (List.mem_cons_of_mem text inside)
    · exact vouched.texts texts (waiting other)
  · have before := runs.controls.opens opened
    have here : known r ∧ (core.cell op).tag = r.tag ∧ op < core.made := by
      rcases List.mem_append.mp member with produced | other
      · refine ⟨?_, dispatched runs grounded routed before produced⟩
        obtain ⟨text, rest, choice, rfl, parsed⟩ := Section.reply_some (runs.hands_reply produced)
        exact vouched.texts _ (Grounded.consumed_mem consumed List.mem_cons_self) text
          List.mem_cons_self r parsed
      · exact vouched.replies before op r (waiting other)
    obtain ⟨heard, tag, made⟩ := here
    exact ⟨heard, (runs.fixed made).tag.trans tag,
      Nat.lt_of_lt_of_le made (runs.heap.1 ▸ Nat.le_add_right _ _)⟩

end Vouched

theorem fail_left {s : System} (reached : imapContext.Reachable s) {op : OpId} {ec : ErrorCode}
    (pends : .fail op ec ∈ s.pending) : s.core.phase ≠ .opened := by
  refine (GuardedRun.of_reachable reached).invariant
    (fun core pending => ∀ op ec, .fail op ec ∈ pending → core.phase ≠ .opened)
    (fun _ _ _ perm left op ec member => left op ec (perm.symm.subset member)) (by simp) ?_ op ec pends
  intro s others sec o _ consumed left _ runs op ec member
  rcases List.mem_append.mp member with produced | other
  · cases runs.hands produced rfl with
    | fail _ _ _ taken => exact runs.fails_left taken
  · exact fun opened =>
      left op ec (consumed.symm.subset (List.mem_append_right _ other)) (runs.controls.opens opened)

def Minds (known : TaggedResponse → Prop) : Action → Prop
  | .call (.submit ..) => False
  | .resume _ (.data texts) => ∀ text ∈ texts, ∀ r, Parser.parse text = some (.tagged r) → known r
  | _ => True

theorem Begun.permuted {core : ContextCore} {before after : List Work}
    (perm : before.Perm after) {op : OpId}
    (begun : Begun core before op) : Begun core after op :=
  begun.imp_right (And.imp_right (Or.imp_right fun ⟨post, pends⟩ => ⟨post, perm.subset pends⟩))

theorem Section.Runs.allocated_le {core : ContextCore} {sec : Section} {o : Outcome}
    (runs : sec.Runs core o) :
    core.allocated ≤ o.core.allocated := by
  rcases runs.stamps with ⟨-, allocated, -⟩ | ⟨-, -, allocated, -⟩ <;> omega

theorem Section.Runs.sent_grows {core : ContextCore} {pending others : List Work} {sec : Section}
    {o : Outcome}
    (runs : sec.Runs core o) (consumed : pending.Perm (sec.consumed ++ others))
    (grounded : Grounded core pending)
    (op : OpId) (sent : core.sent op ≠ []) : o.core.sent op ≠ [] := by
  obtain ⟨events, log⟩ := Lived.grows runs consumed grounded op
  rw [ContextCore.sent, log, stagedSegments_append]
  exact List.append_ne_nil_of_left_ne_nil sent _

namespace System

theorem section_pending {s : System} {action : Action} {w : Work} {choice : Choice}
    (selected : s.section? action = some (.work w choice)) : w ∈ s.pending := by
  cases action with
  | call c => simp [section?] at selected
  | resume i answer =>
    obtain ⟨first, head, same⟩ := Option.map_eq_some_iff.mp selected
    cases same
    obtain ⟨thread, found, head⟩ := Option.bind_eq_some_iff.mp head
    exact List.mem_flatten.mpr ⟨thread, List.mem_of_getElem? found, List.mem_of_mem_head? head⟩

/-- What one state of the context keeps of an earlier one, as long as nothing is submitted. -/
structure Keeps (known : TaggedResponse → Prop) (s t : System) : Prop where
  reached : imapContext.Reachable t
  made : t.core.made = s.core.made
  fixed : ∀ op < s.core.made, (s.core.cell op).Fixed (t.core.cell op)
  opened : t.core.phase = .opened → s.core.phase = .opened
  begun : ∀ op, Begun t.core t.pending op → Begun s.core s.pending op
  sent : ∀ op, s.core.sent op ≠ [] → t.core.sent op ≠ []
  allocated : s.core.allocated ≤ t.core.allocated
  vouched : Vouched known s.core s.pending → Vouched known t.core t.pending

variable {known : TaggedResponse → Prop} {s t u : System}

theorem Keeps.refl (reached : imapContext.Reachable s) : s.Keeps known s :=
  ⟨reached, rfl, fun _ _ => .refl _, id, fun _ => id, fun _ => id, le_rfl, id⟩

theorem Keeps.trans (first : s.Keeps known t) (second : t.Keeps known u) : s.Keeps known u where
  reached := second.reached
  made := second.made.trans first.made
  fixed op made := (first.fixed op made).trans (second.fixed op (first.made ▸ made))
  opened := first.opened ∘ second.opened
  begun op := first.begun op ∘ second.begun op
  sent op := second.sent op ∘ first.sent op
  allocated := first.allocated.trans second.allocated
  vouched := second.vouched ∘ first.vouched

theorem Keeps.step {action : Action} (reached : imapContext.Reachable s) (minds : Minds known action)
    (stepped : s.step action = some t) : s.Keeps known t := by
  obtain ⟨sec, o, others, selected, ran, same, consumed, produced⟩ := step_section stepped
  have runs := Section.runs ran
  have grounded := Grounded.of_run (.of_reachable reached)
  have plain : sec.attaches s.core = [] := by
    cases action with
    | call c =>
      cases selected
      cases c <;> first | rfl | exact minds.elim
    | resume i choice =>
      obtain ⟨w, -, rfl⟩ := Option.map_eq_some_iff.mp selected
      rfl
  have read : ∀ texts, sec = .work .reading (.data texts) → ∀ text ∈ texts, ∀ r,
      Parser.parse text = some (.tagged r) → known r := by
    rintro texts rfl
    cases action with
    | call c => cases selected
    | resume i choice =>
      obtain ⟨w, -, same⟩ := Option.map_eq_some_iff.mp selected
      cases same
      exact minds
  refine ⟨reached.next True.intro stepped, ?_, ?_, ?_, ?_, ?_, ?_, ?_⟩
  · rw [same, runs.heap.1, plain]
    rfl
  · intro op made
    rw [same]
    exact runs.fixed made
  · rw [same]
    exact runs.controls.opens
  · intro op begun
    rw [same] at begun
    exact runs.begun consumed grounded plain (begun.permuted produced)
  · rw [same]
    exact runs.sent_grows consumed grounded
  · rw [same]
    exact runs.allocated_le
  · intro vouched
    rw [same]
    exact (vouched.preserved ran consumed grounded (.of_run (.of_reachable reached)) read).permuted
      produced.symm

structure Adds (known : TaggedResponse → Prop) (request : Request) (s t : System) : Prop where
  reached : imapContext.Reachable t
  made : t.core.made = s.core.made + 1
  fixed : ∀ op < s.core.made, (s.core.cell op).Fixed (t.core.cell op)
  request : (t.core.cell s.core.made).request = request
  phase : t.core.phase = s.core.phase
  fresh : Begun t.core t.pending s.core.made → s.core.phase = .opened
  begun : ∀ op < s.core.made, Begun t.core t.pending op → Begun s.core s.pending op
  sent : ∀ op, s.core.sent op ≠ [] → t.core.sent op ≠ []
  allocated : s.core.allocated ≤ t.core.allocated
  vouched : Vouched known s.core s.pending → Vouched known t.core t.pending

theorem Adds.step {tag : Tag} {request : Request} {addr : Nat} {callbackPath : Bool}
    (reached : imapContext.Reachable s)
    (stepped : s.step (.call (.submit tag request addr callbackPath)) = some t) :
    s.Adds known request t := by
  obtain ⟨sec, o, others, selected, ran, same, consumed, produced⟩ := step_section stepped
  cases selected
  have runs := Section.runs ran
  have grounded := Grounded.of_run (.of_reachable reached)
  have unborn := (Lived.of_run (.of_reachable reached)).unborn s.core.made le_rfl
  have moved : imapContext.step s (.call (.submit tag request addr callbackPath)) = some t := stepped
  have core : o = s.core.attach tag request addr callbackPath !callbackPath := by
    cases runs
    rfl
  have log : t.core.log = s.core.log := by rw [same, core]; rfl
  have phase : t.core.phase = s.core.phase := by rw [same, core]; rfl
  have sent (op : OpId) :
    t.core.sent op = s.core.sent op := by rw [ContextCore.sent, log, ContextCore.sent]
  refine ⟨reached.next True.intro moved, ?_, ?_, ?_, phase, ?_, ?_, fun op => ?_, ?_, ?_⟩
  · rw [same, core]
    rfl
  · intro op made
    rw [same]
    exact runs.fixed made
  · rw [same, core]
    simp [ContextCore.attach, Operation.attach]
  · rintro (sends | ⟨opened, -⟩)
    · rw [sent, ContextCore.sent, unborn] at sends
      exact absurd rfl sends
    · exact phase ▸ opened
  · rintro op made (sends | ⟨opened, place⟩)
    · exact .inl (sent op ▸ sends)
    · refine .inr ⟨phase ▸ opened, ?_⟩
      rcases place with queued | ⟨post, pends⟩
      · left
        rw [same, core] at queued
        exact queued
      · rcases List.mem_append.mp (produced.subset pends) with new | old
        · rw [core] at new
          cases List.mem_singleton.mp new
          exact absurd made (Nat.lt_irrefl _)
        · exact .inr ⟨post, consumed.symm.subset (List.mem_append_right _ old)⟩
  · rw [sent]
    exact id
  · rw [same]
    exact runs.allocated_le
  · intro vouched
    rw [same]
    refine (vouched.preserved ran consumed grounded (.of_run (.of_reachable reached)) ?_).permuted
      produced.symm
    rintro texts ⟨⟩

end System

end Bkmail
