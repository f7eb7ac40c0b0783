import Bkmail.Command.Capability
import Bkmail.Command.List
import Bkmail.Command.Search
import Bkmail.Context.Pipelining
import Bkmail.Mail.Header

namespace Bkmail

open Fetch

/-! The results of the commands, from the untagged responses that they have absorbed and the tagged
reply. The UID commands have the handlers of their siblings over again. -/

def FetchCommand.onUntagged (stale : Bytes → Bytes → Bytes) (data : List MessageAttributes)
    (r : UntaggedResponse) : List MessageAttributes :=
  if r.kind ≠ .fetch then data else data ++ (parseFetchAttributes stale r.payload).toList

def UidFetchCommand.onUntagged (stale : Bytes → Bytes → Bytes) (data : List MessageAttributes)
    (r : UntaggedResponse) : List MessageAttributes :=
  FetchCommand.onUntagged stale data r

def FetchEnvelopesCommand.onUntagged (envelopes : List Envelope) (r : UntaggedResponse) :
    List Envelope :=
  if r.kind ≠ .fetch then envelopes else envelopes ++ (parseEnvelopeAttribute r.payload).toList

def UidFetchEnvelopesCommand.onUntagged (envelopes : List Envelope) (r : UntaggedResponse) :
    List Envelope :=
  FetchEnvelopesCommand.onUntagged envelopes r

def FetchHeadersCommand.onUntagged (headers : List MailHeader) (r : UntaggedResponse) :
    List MailHeader :=
  if r.kind ≠ .fetch then headers
  else
    match (parseBodySectionAttribute (ascii "BODY[HEADER.FIELDS") r.payload).join with
    | none => headers
    | some block => headers ++ [parseMailHeaderBlock block {}]

def UidFetchHeadersCommand.onUntagged (headers : List MailHeader) (r : UntaggedResponse) :
    List MailHeader :=
  FetchHeadersCommand.onUntagged headers r

/-- The commands by what they make of the responses; those of `void` drop them. -/
inductive ResultCommand where
  | void
  | capability
  | select (mailbox : Bytes)
  | examine (mailbox : Bytes)
  | status
  | list
  | search
  | uidSearch
  | fetch
  | uidFetch
  | fetchEnvelopes
  | uidFetchEnvelopes
  | fetchHeaders
  | uidFetchHeaders
  | fetchMessage
  | uidFetchMessage

inductive CommandResult where
  | void
  | capabilities (set : CapabilitySet)
  | mailbox (info : MailboxInfo)
  | status (status : MailboxStatus)
  | entries (entries : List MailboxEntry)
  | numbers (found : List Nat)
  | attributes (data : List MessageAttributes)
  | envelopes (envelopes : List Envelope)
  | headers (headers : List MailHeader)
  | messages (messages : List Mail)

namespace ResultCommand

/-- What an OK moves out of the command, if every untagged handler has returned. -/
def out (stale : Bytes → Bytes → Bytes) (absorbed : List UntaggedResponse) (r : TaggedResponse) :
    ResultCommand → Option CommandResult
  | void => some .void
  | capability => some (.capabilities (CapabilityCommand.result absorbed r).2)
  | select mailbox => some (.mailbox (SelectCommand.onTagged mailbox (Snapshot.absorbed absorbed) r).2)
  | examine mailbox =>
    some (.mailbox (ExamineCommand.onTagged mailbox (Snapshot.absorbed absorbed) r).2)
  | status => some (.status (absorbed.foldl StatusCommand.onUntagged {}))
  | list => some (.entries (absorbed.foldl ListCommand.onUntagged []))
  | search =>
    (absorbed.foldlM (fun found r => SearchCommand.onUntagged r.payload.length found r) []).map .numbers
  | uidSearch =>
    (absorbed.foldlM (fun found r => UidSearchCommand.onUntagged r.payload.length found r) []).map
      .numbers
  | fetch => some (.attributes (absorbed.foldl (FetchCommand.onUntagged stale) []))
  | uidFetch => some (.attributes (absorbed.foldl (UidFetchCommand.onUntagged stale) []))
  | fetchEnvelopes => some (.envelopes (absorbed.foldl FetchEnvelopesCommand.onUntagged []))
  | uidFetchEnvelopes => some (.envelopes (absorbed.foldl UidFetchEnvelopesCommand.onUntagged []))
  | fetchHeaders => some (.headers (absorbed.foldl FetchHeadersCommand.onUntagged []))
  | uidFetchHeaders => some (.headers (absorbed.foldl UidFetchHeadersCommand.onUntagged []))
  | fetchMessage => some (.messages (absorbed.foldl FetchMessageCommand.onUntagged []))
  | uidFetchMessage => some (.messages (absorbed.foldl UidFetchMessageCommand.onUntagged []))

/-- An error delivers no result but the default. -/
def result (command : ResultCommand) (stale : Bytes → Bytes → Bytes) (absorbed : List UntaggedResponse)
    (r : TaggedResponse) : Option ErrorCode × Option CommandResult :=
  match mapStatusToEc r.status with
  | some ec => (some ec, none)
  | none => (none, command.out stale absorbed r)

theorem result_code (command : ResultCommand) (stale : Bytes → Bytes → Bytes)
    (absorbed : List UntaggedResponse) (r : TaggedResponse) :
    (command.result stale absorbed r).1 = mapStatusToEc r.status := by
  rw [result]
  cases mapStatusToEc r.status <;> rfl

theorem result_congr (command : ResultCommand) (stale : Bytes → Bytes → Bytes)
    (absorbed : List UntaggedResponse) {r r' : TaggedResponse} (status : r'.status = r.status)
    (code : r'.code = r.code) : command.result stale absorbed r' = command.result stale absorbed r := by
  have same : command.out stale absorbed r' = command.out stale absorbed r := by
    cases command with
    | capability =>
      simp only [out, CapabilityCommand.result, CapabilityCommand.onTagged, status, code]
    | select mailbox => simp only [out, SelectCommand.onTagged, status, code]
    | examine mailbox => simp only [out, ExamineCommand.onTagged, status, code]
    | _ => rfl
  rw [result, result, status, same]

end ResultCommand

/-- A pipelined command has the result that it has alone, if the server says there just what the
    command hears in the pipeline. -/
theorem pipelining_result {c alone : Conversation} (pipelined : conversations.Reachable c)
    (single : conversations.Reachable alone) {i : Nat} {op p : OpId} (here : c.commands[i]? = some op)
    (only : alone.commands = [p])
    (request : (alone.core.cell p).request = (c.core.cell op).request)
    (said : alone.said.map (·.response) = c.hears i) {r r' : TaggedResponse}
    (answered : c.replies[i]? = some r) (answered' : alone.replies[0]? = some r')
    (reply : alone.reply 0 = c.reply i) (command : ResultCommand) (stale : Bytes → Bytes → Bytes) :
    command.result stale (alone.core.cell p).absorbed r' =
        command.result stale (c.core.cell op).absorbed r ∧
      (∀ outcome, .delivered op outcome ∈ c.core.log →
        outcome = .value (command.result stale (c.core.cell op).absorbed r).1) ∧
      ∀ outcome, .delivered p outcome ∈ alone.core.log →
        outcome = .value (command.result stale (alone.core.cell p).absorbed r').1 := by
  have conversed := Conversed.of_reachable pipelined
  have lonely := Conversed.of_reachable single
  have first : alone.commands[0]? = some p := by rw [only]; rfl
  have absorbs := conversed.absorbed_alone lonely here only request said
  have replied : (r'.status, r'.code, r'.text) = (r.status, r.code, r.text) := by
    simpa [Conversation.reply, answered, answered'] using reply
  obtain ⟨status, code, -⟩ : r'.status = r.status ∧ r'.code = r.code ∧ r'.text = r.text := by
    simpa using replied
  refine ⟨?_, fun outcome told => ?_, fun outcome told => ?_⟩
  · rw [absorbs, command.result_congr stale _ status code]
  · obtain ⟨heard, known, rfl⟩ := conversed.delivered_reply here told
    rw [Conversation.reply, answered, Option.map_some] at known
    cases known
    rw [command.result_code]
  · obtain ⟨heard, known, rfl⟩ := lonely.delivered_reply first told
    rw [Conversation.reply, answered', Option.map_some] at known
    cases known
    rw [command.result_code]

/-- The second SELECT reports the unseen message of the first mailbox. -/
theorem pipelining_result_select : ∃ c alone r r', conversations.Reachable c ∧
    conversations.Reachable alone ∧ .delivered 1 (.value none) ∈ c.core.log ∧
    .delivered 0 (.value none) ∈ alone.core.log ∧
    (Snapshot.absorbed (c.core.cell 1).absorbed).unseen = some 3 ∧
    ∀ (command : ResultCommand) (stale : Bytes → Bytes → Bytes),
      command.result stale (alone.core.cell 0).absorbed r' =
        command.result stale (c.core.cell 1).absorbed r := by
  obtain ⟨c, pipelined, here⟩ := conversations.reachable_of_trace pipelinedSelects
    (fun c => decide (c.commands[1]? = some 1 ∧
      (c.core.cell 1).request = .line (selectCommand (ascii "b")) ∧
      c.hears 1 = untaggedOf [ascii "* 5 EXISTS", ascii "* OK [UNSEEN 3] x", ascii "* 0 EXISTS"] ∧
      c.reply 1 = some (.ok, none, ascii "done") ∧ Event.delivered 1 (.value none) ∈ c.core.log ∧
      (Snapshot.absorbed (c.core.cell 1).absorbed).unseen = some 3)) (by decide)
  obtain ⟨alone, single, there⟩ := conversations.reachable_of_trace
    (loneSelect [ascii "* 5 EXISTS", ascii "* OK [UNSEEN 3] x", ascii "* 0 EXISTS"])
    (fun c => decide (c.commands = [0] ∧
      (c.core.cell 0).request = .line (selectCommand (ascii "b")) ∧
      c.said.map (·.response) =
        untaggedOf [ascii "* 5 EXISTS", ascii "* OK [UNSEEN 3] x", ascii "* 0 EXISTS"] ∧
      c.reply 0 = some (.ok, none, ascii "done") ∧ Event.delivered 0 (.value none) ∈ c.core.log))
    (by decide)
  obtain ⟨second, request, hears, reply, told, unseen⟩ := of_decide_eq_true here
  obtain ⟨only, request', said, reply', told'⟩ := of_decide_eq_true there
  obtain ⟨r, answered, -⟩ := Option.map_eq_some_iff.mp reply
  obtain ⟨r', answered', -⟩ := Option.map_eq_some_iff.mp reply'
  exact ⟨c, alone, r, r', pipelined, single, told, told', unseen, fun command stale =>
    (pipelining_result pipelined single second only (request'.trans request.symm)
      (said.trans hears.symm) answered answered' (reply'.trans reply.symm) command stale).1⟩

/-- Against its own responses alone the second SELECT has no unseen message to report. -/
theorem pipelined_select_differs : ¬ ∀ c alone, conversations.Reachable c →
    conversations.Reachable alone → ∀ (i : Nat) (op p : OpId) (r r' : TaggedResponse),
      c.commands[i]? = some op → alone.commands = [p] →
      (alone.core.cell p).request = (c.core.cell op).request →
      alone.said.map (·.response) = c.own i → c.replies[i]? = some r → alone.replies[0]? = some r' →
      alone.reply 0 = c.reply i → ∀ (command : ResultCommand) (stale : Bytes → Bytes → Bytes),
        command.result stale (alone.core.cell p).absorbed r' =
          command.result stale (c.core.cell op).absorbed r := by
  intro claimed
  obtain ⟨c, pipelined, here⟩ := conversations.reachable_of_trace pipelinedSelects
    (fun c => decide (c.commands[1]? = some 1 ∧
      (c.core.cell 1).request = .line (selectCommand (ascii "b")) ∧
      c.own 1 = untaggedOf [ascii "* 0 EXISTS"] ∧ c.reply 1 = some (.ok, none, ascii "done") ∧
      (Snapshot.absorbed (c.core.cell 1).absorbed).unseen = some 3)) (by decide)
  obtain ⟨alone, single, there⟩ := conversations.reachable_of_trace (loneSelect [ascii "* 0 EXISTS"])
    (fun c => decide (c.commands = [0] ∧
      (c.core.cell 0).request = .line (selectCommand (ascii "b")) ∧
      c.said.map (·.response) = untaggedOf [ascii "* 0 EXISTS"] ∧
      c.reply 0 = some (.ok, none, ascii "done") ∧
      (Snapshot.absorbed (c.core.cell 0).absorbed).unseen = none)) (by decide)
  obtain ⟨second, request, own, reply, unseen⟩ := of_decide_eq_true here
  obtain ⟨only, request', said, reply', unseen'⟩ := of_decide_eq_true there
  obtain ⟨r, answered, ok⟩ := Option.map_eq_some_iff.mp reply
  obtain ⟨r', answered', ok'⟩ := Option.map_eq_some_iff.mp reply'
  have same := claimed c alone pipelined single 1 1 0 r r' second only (request'.trans request.symm)
    (said.trans own.symm) answered answered' (reply'.trans reply.symm) (.select (ascii "b")) fun old _ => old
  have status : r.status = .ok := congrArg Prod.fst ok
  have status' : r'.status = .ok := congrArg Prod.fst ok'
  simp only [ResultCommand.result, ResultCommand.out, SelectCommand.onTagged, status, status',
    mapStatusToEc, Prod.mk.injEq, Option.some.injEq, CommandResult.mailbox.injEq, true_and] at same
  have shown := congrArg MailboxInfo.unseen same
  rw [unseen, unseen'] at shown
  cases shown

end Bkmail
