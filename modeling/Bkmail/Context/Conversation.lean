import Bkmail.Context.Hearing
import Bkmail.Command.Snapshot

namespace Bkmail

/-- An untagged response as the server says it: the number of the command that it answers, and how
    many commands are registered when it comes. -/
structure Said where
  command : Nat
  known : Nat
  response : UntaggedResponse
  deriving DecidableEq, Repr

def Section.reply : Section → Option TaggedResponse
  | .work (.readLoop (text :: _)) _ =>
    match Parser.parse text with
    | some (.tagged r) => some r
    | _ => none
  | _ => none

/-- The server replies to the commands in the order in which they are queued and says nothing
    unasked; nobody cancels a command, and the connection stays. -/
def Section.inOrder (s : ContextCore) : Section → Bool
  | .call .allocateTag => decide (s.allocated + 1 < 2 ^ 64)
  | .call (.submit ..) | .call .flush => true
  | .call _ => false
  | .work .reading (.data _) | .work (.writing _) .done => true
  | .work .reading _ | .work (.writing _) _ => false
  | .work (.readLoop (text :: _)) _ =>
    match Parser.parse text with
    | some (.tagged r) => (s.writeQueue.head?.map fun op => (s.cell op).tag) == some r.tag
    | some (.untagged _) => true
    | some (.continuation _) => s.continuationTarget.isSome
    | none => false
  | .work (.routeUntagged _) _ => !s.writeQueue.isEmpty
  | .work (.fail ..) _ | .work (.stopScheduled _) _ | .work (.connectionLost _) _ | .work
      (.writeLost ..) _
  | .work .readLost _ => false
  | .work _ _ => true

/-- A run of the system, with what the server has said in it. -/
structure Conversation where
  system : System := {}
  replies : List TaggedResponse := []
  said : List Said := []

namespace Conversation

def core (c : Conversation) : ContextCore := c.system.core

def commands (c : Conversation) : List OpId := enqueuedOps c.core.log

def requests (c : Conversation) : List Request := c.commands.map fun op => (c.core.cell op).request

def adds (c : Conversation) (sec : Section) : List Said :=
  sec.routed.toList.map (Said.mk c.replies.length c.commands.length)

def step (c : Conversation) (action : Action) : Option Conversation :=
  (c.system.section? action).bind fun sec =>
    if sec.inOrder c.core then
      (c.system.step action).map fun system =>
        { system
          replies := c.replies ++ sec.reply.toList
          said := c.said ++ c.adds sec }
    else none

end Conversation

def conversations : Automaton.Machine Conversation Action := ⟨{}, Conversation.step⟩

/-- The untagged responses that a command takes when there is no other. -/
def Request.accepts (r : UntaggedResponse) (request : Request) : Bool :=
  !ContextCore.commandScoped r.kind || request.wantsUntagged r.kind

/-- A response comes to a command that is registered and not answered yet: a status line or a
    mailbox size to every one, other data to the first that wants it. -/
def Said.reaches (requests : List Request) (i : Nat) (x : Said) : Bool :=
  decide (x.command ≤ i) && decide (i < x.known) && requests[i]?.any (·.accepts x.response) &&
    (!ContextCore.commandScoped x.response.kind ||
      ((requests.take i).drop x.command).all fun earlier => !earlier.wantsUntagged x.response.kind)

namespace Conversation

/-- The untagged answers to a command. -/
def own (c : Conversation) (i : Nat) : List UntaggedResponse :=
  (c.said.filter (·.command == i)).map (·.response)

/-- The untagged answers to a command, and the answers to earlier ones that come to it too. -/
def hears (c : Conversation) (i : Nat) : List UntaggedResponse :=
  (c.said.filter fun x => x.command == i || x.reaches c.requests i).map (·.response)

def reply (c : Conversation) (i : Nat) : Option (ResponseStatus × Option ResponseCode × Bytes) :=
  c.replies[i]?.map fun r => (r.status, r.code, r.text)

end Conversation

/-- A search from a position on finds an element iff none between wants it. -/
theorem find_drop_iff {α : Type} [DecidableEq α] {p : α → Bool} {xs : List α} (nodup : xs.Nodup)
    {n i : Nat} {x : α}
    (here : xs[i]? = some x) :
    (xs.drop n).find? p = some x ↔
    n ≤ i ∧ p x = true ∧ ((xs.take i).drop n).all (fun y => !p y) = true := by
  obtain ⟨inside, itself⟩ := List.getElem?_eq_some_iff.mp here
  rw [List.find?_eq_some_iff_append]
  constructor
  · rintro ⟨wants, before, behind, split, none⟩
    have place : n + before.length = i := by
      have found : xs[n + before.length]? = some x := by
        rw [← List.getElem?_drop, split]
        simp
      obtain ⟨bound, -⟩ := List.getElem?_eq_some_iff.mp found
      exact (List.getElem?_inj bound nodup).mp (found.trans here.symm)
    subst place
    refine ⟨Nat.le_add_right _ _, wants, ?_⟩
    rw [List.drop_take, Nat.add_sub_cancel_left, split, List.take_left]
    simpa using none
  · rintro ⟨after, wants, none⟩
    refine ⟨wants, (xs.take i).drop n, xs.drop (i + 1), ?_, by simpa using none⟩
    rw [← itself, ← List.drop_eq_getElem_cons inside, List.drop_take]
    calc xs.drop n = (xs.drop n).take (i - n) ++ (xs.drop n).drop (i - n) :=
      (List.take_append_drop _ _).symm
      _ = (xs.drop n).take (i - n) ++ xs.drop i := by rw [List.drop_drop, Nat.add_sub_cancel' after]

end Bkmail
