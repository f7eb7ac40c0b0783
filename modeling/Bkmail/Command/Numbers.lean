import Bkmail.Command.Search
import Bkmail.Command.Snapshot
import Bkmail.Context.ReadPump
import Bkmail.Response.Skipping
import Mathlib.Data.List.Induction

namespace Bkmail

open Cursor Bkmail.Parser

/-! The numbers of a response that end up in 32 bits, and the digits they come from. -/

def wireNumber (response : Bytes) : Nat := decimalValue ((response.drop 2).takeWhile isDigit)

def statusRest (response : Bytes) : Bytes :=
  if response.head? = some (byte '*') then (readAtom (response.drop 2)).2
  else (readAtom ((readAtom response).2.drop 1)).2

def codeInner (response : Bytes) : Bytes := (readUntilAny (ascii "]") ((statusRest response).drop 2)).1

def codeDigits (response : Bytes) : Nat :=
  decimalValue (((readAtom (codeInner response)).2.drop 1).takeWhile isDigit)

def ServerResponse.code : ServerResponse → Option ResponseCode
  | .tagged r => r.code
  | .untagged r => r.code
  | .continuation _ => none

def ResponseCode.number : ResponseCode → Option Nat
  | .uidnext value | .uidvalidity value | .unseen value => some value
  | _ => none

def UnsolicitedEvent.number : UnsolicitedEvent → Option Nat
  | .exists n | .recent n | .expunge n | .flagsUpdate n => some n
  | .capability _ | .bye .. | .greeting .. => none

theorem readNumber_value {text : Bytes} {n : Nat} {rest : Bytes}
    (read : readNumber text = (some n, rest)) :
    n = decimalValue (text.takeWhile isDigit) := by
  rw [readNumber] at read
  split at read
  · cases read
  · have value := congrArg Prod.fst read
    dsimp only at value
    rw [fromChars] at value
    split at value
    · exact (Option.some.inj value).symm
    · cases value

theorem tryConsume_some {c : UInt8} {text rest : Bytes} (consumed : tryConsume c text = some rest) :
    text = c :: rest := by
  cases text with
  | nil => cases consumed
  | cons d text =>
    rw [tryConsume] at consumed
    split at consumed
    · next same =>
      cases consumed
      rw [beq_iff_eq.mp same]
    · cases consumed

def UntaggedKind.numbered : UntaggedKind → Bool
  | .exists | .recent | .expunge | .fetch => true
  | _ => false

theorem kindFor_numbered (status : ResponseStatus) :
    (kindFor status).numbered = false := by cases status <;> rfl

theorem dataKind_numbered (word : Bytes) : (dataKind word).numbered = false := by
  unfold dataKind
  repeat' split
  all_goals rfl

theorem parseNumbered_cases {start : Bytes} {accepted : ServerResponse}
    (parsed : parseNumbered start = some accepted) :
    ∃ r, accepted = .untagged r ∧ r.code = none ∧
    r.number = decimalValue (start.takeWhile isDigit) := by
  rw [parseNumbered] at parsed
  split at parsed
  · cases parsed
  · next number rest read =>
    split at parsed
    · cases parsed
    · cases parsed
      exact ⟨_, rfl, rfl, readNumber_value read⟩

/-- An untagged response has its number at the front or none at all. -/
theorem parseUntagged_cases {response : Bytes} {accepted : ServerResponse}
    (parsed : parseUntagged response = some accepted) :
    ∃ r, accepted = .untagged r ∧ (r.kind.numbered = true → r.number = wireNumber response) ∧
      (r.code = none ∨ parseRespText (readAtom (response.drop 2)).2 = some (r.code, r.text)) := by
  rw [parseUntagged] at parsed
  split at parsed
  · cases parsed
  · next start space =>
    have behind : response.drop 2 = start := by
      have twice : response.drop 2 = (response.drop 1).drop 1 := by rw [List.drop_drop]
      rw [twice, tryConsume_some space, List.drop_one, List.tail_cons]
    rw [wireNumber, behind]
    split at parsed
    · obtain ⟨r, same, uncoded, number⟩ := parseNumbered_cases parsed
      exact ⟨r, same, fun _ => number, .inl uncoded⟩
    · dsimp only at parsed
      split at parsed
      · cases parsed
      · split at parsed
        · next status _ =>
          obtain ⟨⟨code, text⟩, read, rfl⟩ := Option.map_eq_some_iff.mp parsed
          exact ⟨_, rfl, fun numbered => absurd numbered (by simp [kindFor_numbered]), .inr read⟩
        · split at parsed
          · cases parsed
            exact ⟨_, rfl, nofun, .inl rfl⟩
          · cases parsed
            exact ⟨_, rfl, fun numbered => absurd numbered (by simp [dataKind_numbered]), .inl rfl⟩

theorem parseTagged_cases {response : Bytes} {accepted : ServerResponse}
    (parsed : parseTagged response = some accepted) :
    ∃ r, accepted = .tagged r ∧
      parseRespText (readAtom ((readAtom response).2.drop 1)).2 = some (r.code, r.text) := by
  rw [parseTagged] at parsed
  dsimp only at parsed
  split at parsed
  · cases parsed
  · split at parsed
    · cases parsed
    · next after space =>
      rw [tryConsume_some space]
      split at parsed
      · cases parsed
      · cases parsed
      · cases parsed
      · obtain ⟨⟨code, text⟩, read, rfl⟩ := Option.map_eq_some_iff.mp parsed
        exact ⟨_, rfl, read⟩

theorem parseRespText_code {text : Bytes} {code : ResponseCode} {rest : Bytes}
    (read : parseRespText text = some (some code, rest)) :
    code = parseRespCode (readUntilAny (ascii "]") (text.drop 2)).1 := by
  rw [parseRespText] at read
  split at read
  · cases read
  · next after space =>
    split at read
    · cases read
    · next bracket opened =>
      rw [tryConsume_some space, tryConsume_some opened]
      dsimp only at read
      split at read
      · cases read
      · cases read
        rfl

theorem parse_number {response : Bytes} {r : UntaggedResponse}
    (parsed : parse response = some (.untagged r))
    (numbered : r.kind.numbered = true) : r.number = wireNumber response := by
  cases response with
  | nil => cases parsed
  | cons c text =>
    rw [parse] at parsed
    split at parsed
    · cases parsed
    · split at parsed
      · obtain ⟨r', same, number, -⟩ := parseUntagged_cases parsed
        cases same
        exact number numbered
      · obtain ⟨r', same, -⟩ := parseTagged_cases parsed
        cases same

theorem parse_code {response : Bytes} {r : ServerResponse} {code : ResponseCode}
    (parsed : parse response = some r)
    (coded : r.code = some code) : code = parseRespCode (codeInner response) := by
  cases response with
  | nil => cases parsed
  | cons c text =>
    rw [parse] at parsed
    split at parsed
    · cases parsed
      cases coded
    · rw [codeInner, statusRest]
      split at parsed
      · next star =>
        obtain ⟨r, rfl, -, uncoded | read⟩ := parseUntagged_cases parsed
        · cases uncoded.symm.trans coded
        · rw [List.head?_cons, if_pos (congrArg some (beq_iff_eq.mp star))]
          exact parseRespText_code (read.trans (congrArg (fun code => some (code, _)) coded))
      · next other =>
        obtain ⟨r, rfl, read⟩ := parseTagged_cases parsed
        rw [List.head?_cons, if_neg fun star => other (beq_iff_eq.mpr (Option.some.inj star))]
        exact parseRespText_code (read.trans (congrArg (fun code => some (code, _)) coded))

theorem numberCode_number {atom rest : Bytes} {make : Nat → ResponseCode}
    (kept : ∀ n, (make n).number = some n)
    {value : Nat} (number : (numberCode atom rest make).number = some value) :
    value = decimalValue ((rest.drop 1).takeWhile isDigit) % 2 ^ 32 := by
  rw [numberCode] at number
  split at number
  · cases number
  · next after space =>
    split at number
    · next n behind read =>
      rw [kept] at number
      rw [tryConsume_some space, List.drop_one, List.tail_cons, ← readNumber_value read]
      exact (Option.some.inj number).symm
    · cases number

theorem badcharsetCode_number (atom rest : Bytes) : (badcharsetCode atom rest).number = none := by
  unfold badcharsetCode
  repeat' split
  all_goals rfl

theorem permanentflagsCode_number (atom rest : Bytes) :
    (permanentflagsCode atom rest).number = none := by
  unfold permanentflagsCode
  repeat' split
  all_goals rfl

theorem parseRespCode_number {inner : Bytes} {value : Nat}
    (number : (parseRespCode inner).number = some value) :
    value = decimalValue (((readAtom inner).2.drop 1).takeWhile isDigit) % 2 ^ 32 := by
  rw [parseRespCode] at number
  dsimp only at number
  repeat' split at number
  all_goals first
    | exact numberCode_number (fun _ => rfl) number
    | cases number
    | cases (badcharsetCode_number _ _).symm.trans number
    | cases (permanentflagsCode_number _ _).symm.trans number

namespace Fetch

/-- A sink that keeps a log of the keys it was called with and the texts at their values. -/
def logged {σ : Type} (sink : σ → Bytes → Bytes → Option (σ × Bytes)) (out : σ × List (Bytes × Bytes))
    (key text : Bytes) : Option ((σ × List (Bytes × Bytes)) × Bytes) :=
  (sink out.1 key text).map fun (next, rest) => ((next, out.2 ++ [(key, text)]), rest)

theorem walkAttributes_logged {σ : Type} (sink : σ → Bytes → Bytes → Option (σ × Bytes))
    (fuel : Nat) (out : σ)
    (log : List (Bytes × Bytes)) (text : Bytes) :
    (walkAttributes (logged sink) fuel (out, log) text).map Prod.fst =
    walkAttributes sink fuel out text := by
  induction fuel generalizing out log text with
  | zero => rfl
  | succ fuel ih =>
    rw [walkAttributes, walkAttributes]
    dsimp only
    split
    · rfl
    · split
      · rfl
      · split
        · rfl
        · rw [logged]
          cases sink out _ _ with
          | none => rfl
          | some step => exact ih ..

theorem walkAttributes_keeps {σ : Type} {sink : σ → Bytes → Bytes → Option (σ × Bytes)}
    (kept : σ → Prop)
    (keeps : ∀ out key text next rest, sink out key text = some (next, rest) → kept out → kept next)
    (fuel : Nat)
    {out result : σ} {text : Bytes} (walked : walkAttributes sink fuel out text = some result)
    (start : kept out) :
    kept result := by
  induction fuel generalizing out text with
  | zero => cases walked
  | succ fuel ih =>
    rw [walkAttributes] at walked
    dsimp only at walked
    split at walked
    · cases walked
      exact start
    · split at walked
      · cases walked
      · split at walked
        · cases walked
        · obtain ⟨⟨next, rest⟩, step, behind⟩ := Option.bind_eq_some_iff.mp walked
          exact ih behind (keeps _ _ _ _ _ step start)

/-- The attributes of a list as the FETCH sink meets them: each key, and the text at its value. -/
def attributeLog (stale : Bytes → Bytes → Bytes) (attrList : Bytes) : List (Bytes × Bytes) :=
  ((walkFetchAttributes (logged (attributesSink stale)) ({}, []) attrList).map Prod.snd).getD []

def loggedUid (log : List (Bytes × Bytes)) : Option Nat :=
  (log.filter fun entry => asciiIequals entry.1 (ascii "UID")).getLast?.map fun entry =>
    decimalValue (entry.2.takeWhile isDigit)

theorem loggedUid_append (log : List (Bytes × Bytes)) (key text : Bytes) :
    loggedUid (log ++ [(key, text)]) =
      if asciiIequals key (ascii "UID") then some (decimalValue (text.takeWhile isDigit))
      else loggedUid log := by
  by_cases uid : asciiIequals key (ascii "UID") = true <;> simp [loggedUid, List.filter_append, uid]

theorem attributesSink_uid {stale : Bytes → Bytes → Bytes} {out next : MessageAttributes}
    {key text rest : Bytes}
    (step : attributesSink stale out key text = some (next, rest)) :
    next.uid = if asciiIequals key (ascii "UID") then decimalValue (text.takeWhile isDigit) % 2 ^ 32
    else out.uid := by
  have untouched {α : Type} {read : Option α} {store : α → MessageAttributes × Bytes}
      (step : read.map store = some (next, rest)) (same : ∀ value, (store value).1.uid = out.uid) :
        next.uid = out.uid := by
    obtain ⟨value, -, stored⟩ := Option.map_eq_some_iff.mp step
    rw [← same value, stored]
  have apart {word : String} (same : asciiIequals key (ascii word) = true)
      (other : asciiIequals (ascii word) (ascii "UID") = false) :
        ¬asciiIequals key (ascii "UID") = true := by
    rw [asciiIequals_congr same, other]
    exact Bool.false_ne_true
  rw [attributesSink] at step
  split at step
  · next body =>
    have long : ¬asciiIequals key (ascii "UID") = true := by
      rw [asciiIequals, beq_iff_eq]
      intro same
      have length := congrArg List.length same
      simp [ascii] at length body
      omega
    rw [if_neg long]
    exact untouched step fun _ => rfl
  · split at step
    · next flags =>
      rw [if_neg (apart flags (by decide))]
      exact untouched step fun _ => rfl
    · split at step
      · next uid =>
        obtain ⟨⟨value, behind⟩, read, same⟩ := Option.map_eq_some_iff.mp step
        cases same
        rw [if_pos uid, ← readNumber_value (succeeded_iff.mp read)]
      · next other =>
        rw [if_neg other]
        repeat' split at step
        all_goals exact untouched step fun _ => rfl

theorem parseFetchAttributes_uid {stale : Bytes → Bytes → Bytes} {attrList : Bytes}
    {out : MessageAttributes}
    (parsed : parseFetchAttributes stale attrList = some out) {uid : Nat}
    (last : loggedUid (attributeLog stale attrList) = some uid) : out.uid = uid % 2 ^ 32 := by
  obtain ⟨text, opened, walked⟩ := Option.bind_eq_some_iff.mp parsed
  rw [← walkAttributes_logged _ _ _ []] at walked
  obtain ⟨⟨_, log⟩, logged, rfl⟩ := Option.map_eq_some_iff.mp walked
  rw [attributeLog, walkFetchAttributes, opened, Option.bind_some, logged] at last
  refine walkAttributes_keeps (fun out => ∀ uid, loggedUid out.2 = some uid → out.1.uid = uid % 2 ^ 32)
    ?_ _ logged (fun _ none => by cases none) uid last
  rintro out key text next rest step kept uid last
  obtain ⟨⟨next, behind⟩, stored, same⟩ := Option.map_eq_some_iff.mp step
  cases same
  rw [loggedUid_append] at last
  rw [attributesSink_uid stored]
  split at last
  · next named =>
    cases last
    rw [if_pos named]
  · next other =>
    rw [if_neg other]
    exact kept uid last

end Fetch

def lastOf (kind : UntaggedKind) (responses : List UntaggedResponse) : Option UntaggedResponse :=
  (responses.filter fun r => r.kind == kind).getLast?

theorem lastOf_append (kind : UntaggedKind) (responses : List UntaggedResponse) (r : UntaggedResponse) :
    lastOf kind (responses ++ [r]) = if r.kind = kind then some r else lastOf kind responses := by
  by_cases same : r.kind = kind <;> simp [lastOf, List.filter_append, same]

namespace Snapshot

theorem applyOkCode_counts (info : MailboxInfo) (code : Option ResponseCode) :
    (applyOkCode info code).exists = info.exists ∧ (applyOkCode info code).recent = info.recent := by
  unfold applyOkCode
  split <;> exact ⟨rfl, rfl⟩

theorem onUntagged_exists (info : MailboxInfo) (r : UntaggedResponse) :
    (onUntagged info r).exists = if r.kind = .exists then r.number % 2 ^ 32 else info.exists := by
  rw [onUntagged]
  cases r.kind <;> simp [(applyOkCode_counts _ _).1]

theorem onUntagged_recent (info : MailboxInfo) (r : UntaggedResponse) :
    (onUntagged info r).recent = if r.kind = .recent then r.number % 2 ^ 32 else info.recent := by
  rw [onUntagged]
  cases r.kind <;> simp [(applyOkCode_counts _ _).2]

theorem absorbed_count {count : MailboxInfo → Nat} {kind : UntaggedKind}
    (step : ∀ info r, count (onUntagged info r) = if r.kind = kind then r.number % 2 ^ 32
    else count info)
    {responses : List UntaggedResponse} {r : UntaggedResponse} (last : lastOf kind responses = some r) :
    count (absorbed responses) = r.number % 2 ^ 32 := by
  induction responses using List.reverseRecOn with
  | nil => cases last
  | append_singleton responses next ih =>
    rw [absorbed, List.foldl_append, List.foldl_cons, List.foldl_nil, step]
    rw [lastOf_append] at last
    split at last
    · next same =>
      cases last
      rw [if_pos same]
    · next other =>
      rw [if_neg other]
      exact ih last

end Snapshot

theorem lastOf_kind {kind : UntaggedKind} {responses : List UntaggedResponse} {r : UntaggedResponse}
    (last : lastOf kind responses = some r) : r.kind = kind := by
  simpa using (List.mem_filter.mp (List.mem_of_getLast? last)).2

theorem opened_counts {mailbox : Bytes} {info opened : MailboxInfo} {r : TaggedResponse}
    (done : SelectCommand.onTagged mailbox info r = (none, opened) ∨
    ExamineCommand.onTagged mailbox info r = (none, opened)) :
    opened.exists = info.exists ∧ opened.recent = info.recent := by
  rw [SelectCommand.onTagged, ExamineCommand.onTagged] at done
  split at done
  · rcases done with done | done <;> cases done
  · rcases done with done | done <;> cases done <;> exact ⟨rfl, rfl⟩

namespace StatusCommand

theorem fromChars32_some {text : Bytes} {value : Nat} (read : fromChars32 text = some value) :
    value = decimalValue (text.takeWhile isDigit) ∧ value < 2 ^ 32 := by
  rw [fromChars32] at read
  split at read
  · cases read
  · split at read
    · next fits =>
      cases read
      exact ⟨rfl, fits⟩
    · cases read

/-- A pair sets the item it names, if its number fits. -/
theorem applyPair_get (status : MailboxStatus) (name number : Bytes) (item : StatusItem) :
    (applyPair status name number).get item =
      if asciiIequals name (ascii item.name) then (fromChars32 number).or (status.get item)
      else status.get item := by
  rw [applyPair]
  cases fromChars32 number with
  | none => simp
  | some value =>
    have named {word : String} (same : asciiIequals name (ascii word) = true) (next : MailboxStatus)
        (changed : next.get item = if asciiIequals (ascii word) (ascii item.name) then some value
          else status.get item) :
        next.get item = if asciiIequals name (ascii item.name) then some value
        else status.get item := by
      rw [asciiIequals_congr same, changed]
    rw [Option.some_or]
    dsimp only
    split
    · next same => exact named same _ (by cases item <;> rfl)
    · split
      · next same => exact named same _ (by cases item <;> rfl)
      · split
        · next same => exact named same _ (by cases item <;> rfl)
        · split
          · next same => exact named same _ (by cases item <;> rfl)
          · split
            · next same => exact named same _ (by cases item <;> rfl)
            · cases item <;> simp_all [StatusItem.name]

def lastNumber (item : StatusItem) (row : List (Bytes × Bytes)) : Option Bytes :=
  (row.filter fun pair =>
    asciiIequals pair.1 (ascii item.name) && (fromChars32 pair.2).isSome).getLast?.map Prod.snd

theorem lastNumber_append (item : StatusItem) (row : List (Bytes × Bytes)) (name number : Bytes) :
    lastNumber item (row ++ [(name, number)]) =
      if asciiIequals name (ascii item.name) && (fromChars32 number).isSome then some number
      else lastNumber item row := by
  by_cases takes : (asciiIequals name (ascii item.name) && (fromChars32 number).isSome) = true
  · rw [if_pos takes]
    simp [lastNumber, List.filter_append, takes]
  · rw [if_neg takes]
    simp [lastNumber, List.filter_append, takes]

theorem lastNumber_row {item : StatusItem} {row : List (Bytes × Bytes)} {number : Bytes}
    (last : lastNumber item row = some number) :
    (row.foldl (fun status (name, number) => applyPair status name number) {}).get item =
    fromChars32 number := by
  induction row using List.reverseRecOn with
  | nil => cases last
  | append_singleton row pair ih =>
    obtain ⟨name, other⟩ := pair
    rw [List.foldl_append, List.foldl_cons, List.foldl_nil, applyPair_get]
    rw [lastNumber_append] at last
    split at last
    · next takes =>
      obtain ⟨named, fits⟩ := Bool.and_eq_true_iff.mp takes
      obtain ⟨value, read⟩ := Option.isSome_iff_exists.mp fits
      cases last
      rw [if_pos named, read, Option.some_or]
    · next skips =>
      split
      · next named =>
        have refused : fromChars32 other = none := by simpa [named] using skips
        rw [refused, Option.none_or, ih last]
      · exact ih last

end StatusCommand

/-- A number of accepted responses that ends up in 32 bits: as it stands on the wire, and as it is
    delivered. -/
inductive Delivered : Nat → Nat → Prop where
  | event {response : Bytes} {r : UntaggedResponse} {event : UnsolicitedEvent} {value : Nat}
    (parsed : parse response = some (.untagged r))
    (made : ContextCore.makeUnsolicitedEvent r = some event)
    (number : event.number = some value) : Delivered (wireNumber response) value
  | code {response : Bytes} {r : ServerResponse} {code : ResponseCode} {value : Nat}
    (parsed : parse response = some r) (coded : r.code = some code)
    (number : code.number = some value) :
    Delivered (codeDigits response) value
  | «exists» {response : Bytes} {r : UntaggedResponse} {responses : List UntaggedResponse}
      {mailbox : Bytes}
    {tagged : TaggedResponse} {opened : MailboxInfo} (parsed : parse response = some (.untagged r))
    (last : lastOf .exists responses = some r)
    (done : SelectCommand.onTagged mailbox (Snapshot.absorbed responses) tagged = (none, opened) ∨
      ExamineCommand.onTagged mailbox (Snapshot.absorbed responses) tagged = (none, opened)) :
    Delivered (wireNumber response) opened.exists
  | recent {response : Bytes} {r : UntaggedResponse} {responses : List UntaggedResponse}
      {mailbox : Bytes}
    {tagged : TaggedResponse} {opened : MailboxInfo} (parsed : parse response = some (.untagged r))
    (last : lastOf .recent responses = some r)
    (done : SelectCommand.onTagged mailbox (Snapshot.absorbed responses) tagged = (none, opened) ∨
      ExamineCommand.onTagged mailbox (Snapshot.absorbed responses) tagged = (none, opened)) :
    Delivered (wireNumber response) opened.recent
  | uid {response : Bytes} {r : UntaggedResponse} {stale : Bytes → Bytes → Bytes}
      {out : MessageAttributes} {uid : Nat}
    (parsed : parse response = some (.untagged r)) (fetch : r.kind = .fetch)
    (read : Fetch.parseFetchAttributes stale r.payload = some out)
    (last : Fetch.loggedUid (Fetch.attributeLog stale r.payload) = some uid) : Delivered uid out.uid
  | search {response : Bytes} {r : UntaggedResponse} {fuel : Nat} {found result : List Nat}
      {i : Nat} {digits : Bytes}
    {value : Nat} (parsed : parse response = some (.untagged r)) (search : r.kind = .search)
    (ended : SearchCommand.onUntagged fuel found r = some result ∨
    UidSearchCommand.onUntagged fuel found r = some result)
    (run : (digitRuns r.payload)[i]? = some digits)
    (appended : result[found.length + i]? = some value) :
    Delivered (decimalValue digits) value
  | status {response : Bytes} {r : UntaggedResponse} {status : MailboxStatus} {item : StatusItem}
      {words : List Bytes}
    {number : Bytes} {value : Nat} (parsed : parse response = some (.untagged r))
    (row : r.kind = .status)
    (read : StatusCommand.rowWords r.payload = some words)
    (last : StatusCommand.lastNumber item (StatusCommand.pairs words) = some number)
    (delivered : (StatusCommand.onUntagged status r).get item = some value) :
    Delivered (decimalValue (number.takeWhile isDigit)) value

theorem makeUnsolicitedEvent_number {r : UntaggedResponse} {event : UnsolicitedEvent}
    (made : ContextCore.makeUnsolicitedEvent r = some event) {value : Nat}
    (number : event.number = some value) :
    r.kind.numbered = true ∧ value = r.number % 2 ^ 32 := by
  rw [ContextCore.makeUnsolicitedEvent] at made
  cases kind : r.kind <;> simp only [kind] at made <;> cases made <;> cases number <;> exact ⟨rfl, rfl⟩

/-- Whatever is delivered is the number on the wire modulo 2^32. -/
theorem Delivered.wraps {wire value : Nat} (delivered : Delivered wire value) :
    value = wire % 2 ^ 32 := by
  cases delivered with
  | event parsed made number =>
    obtain ⟨numbered, cut⟩ := makeUnsolicitedEvent_number made number
    rw [cut, parse_number parsed numbered]
  | code parsed coded number =>
    obtain rfl := parse_code parsed coded
    exact parseRespCode_number number
  | «exists» parsed last done =>
    rw [(opened_counts done).1, Snapshot.absorbed_count Snapshot.onUntagged_exists last,
      parse_number parsed (by rw [lastOf_kind last]; rfl)]
  | recent parsed last done =>
    rw [(opened_counts done).2, Snapshot.absorbed_count Snapshot.onUntagged_recent last,
      parse_number parsed (by rw [lastOf_kind last]; rfl)]
  | uid parsed fetch read last => exact Fetch.parseFetchAttributes_uid read last
  | @search _ r _ found result i digits value parsed search ended run appended =>
    have runs : ∃ fuel, searchLoop fuel r.payload found = some result := by
      rcases ended with ended | ended
      · rw [SearchCommand.onUntagged, if_neg (not_not.mpr search)] at ended
        exact ⟨_, ended⟩
      · rw [UidSearchCommand.onUntagged, if_neg (not_not.mpr search)] at ended
        exact ⟨_, ended⟩
    obtain ⟨fuel, ended⟩ := runs
    rw [searchLoop_runs fuel ended, List.getElem?_append_right (Nat.le_add_right _ _),
      Nat.add_sub_cancel_left, List.getElem?_map, run] at appended
    cases appended
    exact wrappedValue_eq digits
  | @status _ r status item _ number value parsed row read last delivered =>
    rw [StatusCommand.onUntagged, if_neg (not_not.mpr row), StatusCommand.parseRow, read] at delivered
    dsimp only at delivered
    rw [StatusCommand.lastNumber_row last] at delivered
    obtain ⟨rfl, fits⟩ := StatusCommand.fromChars32_some delivered
    exact (Nat.mod_eq_of_lt fits).symm

/-- A number is delivered as it stands on the wire exactly if it is below 2^32. -/
theorem delivered_exactly_iff {wire value : Nat} (delivered : Delivered wire value) : value = wire ↔
    wire < 2 ^ 32 := by
  rw [delivered.wraps]
  exact ⟨fun same => same ▸ Nat.mod_lt _ (by decide), Nat.mod_eq_of_lt⟩

theorem exists_delivered_exactly : Delivered (wireNumber (ascii "* 172 EXISTS")) 172 ∧
    (172 = wireNumber (ascii "* 172 EXISTS") ↔ wireNumber (ascii "* 172 EXISTS") < 2 ^ 32) := by
  have delivered : Delivered (wireNumber (ascii "* 172 EXISTS")) 172 :=
    .event (r := { kind := .exists, number := 172 }) (by decide +kernel) rfl rfl
  exact ⟨delivered, delivered_exactly_iff delivered⟩

/-- A mailbox with 2^32 messages, a next UID of 2^32 + 1 and a match of 2^32 + 2 come out as an
    empty one, UID 1 and message 2. -/
theorem numbers_delivered_reduced :
    (wireNumber (ascii "* 4294967296 EXISTS") = 4294967296 ∧
    Delivered (wireNumber (ascii "* 4294967296 EXISTS")) 0) ∧
      (codeDigits (ascii "* OK [UIDNEXT 4294967297] Predicted") = 4294967297 ∧
        Delivered (codeDigits (ascii "* OK [UIDNEXT 4294967297] Predicted")) 1) ∧
      digitRuns (ascii "4294967298") = [ascii "4294967298"] ∧ Delivered 4294967298 2 := by
  refine ⟨⟨by decide +kernel,
    .event (r := { kind := .exists, number := 4294967296 }) (by decide +kernel) rfl rfl⟩,
    ⟨by decide +kernel,
    .code (r := .untagged { kind := .ok, code := some (.uidnext 1), text := ascii "Predicted" })
      (by decide +kernel) rfl rfl⟩, by decide +kernel, ?_⟩
  have value : decimalValue (ascii "4294967298") = 4294967298 := by decide +kernel
  have parsed : parse (ascii "* SEARCH 4294967298") =
      some (.untagged { kind := .search, payload := ascii "4294967298" }) := by decide +kernel
  have ended : SearchCommand.onUntagged 10 [] { kind := .search, payload := ascii "4294967298" } =
      some [2] := by
    decide +kernel
  rw [← value]
  exact .search (i := 0) parsed rfl (.inl ended) (by decide +kernel) rfl

end Bkmail
