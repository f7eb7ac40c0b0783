import Bkmail.Response.Skipping

namespace Bkmail.Fetch
open Cursor

/-! The calls of `parse_body_structure` and `skip_value` that are active at one time while
`parse_fetch_attributes` runs, by the places its loops come by. -/

def BeginsValue (text : Bytes) : Prop := text ≠ [] ∧ text.head? ≠ some (byte ')')

theorem beginsValue_open {text list : Bytes} (opens : text = byte '(' :: list) : BeginsValue text := by
  rw [opens]
  exact ⟨by simp, fun same => absurd (Option.some.inj same) (by decide)⟩

inductive MemberLoop (list : Bytes) : Bytes → Prop
  | start : MemberLoop list list
  | next {text rest : Bytes} (before : MemberLoop list text) (begins : BeginsValue (skipSpaces text))
      (skipped : skipValue (skipSpaces text) = some rest) : MemberLoop list rest

inductive TailLoop (tail : Bytes) : Bytes → Prop
  | start : TailLoop tail tail
  | next {text rest : Bytes} (before : TailLoop tail text) (begins : BeginsValue text)
      (skipped : skipValue text = some rest) : TailLoop tail (skipSpaces rest)

section Bodies

variable (stale : Bytes → Bytes → Bytes)

def partsOf (text : Bytes) : Option Bytes := do
  let text := skipSpaces (← tryConsume (byte '(') text)
  if text.head? == some (byte '(') then some text else none

inductive PartLoop (calls : Nat) (parts : Bytes) : Bytes → Prop
  | start : PartLoop calls parts parts
  | next {text rest : Bytes} {part : BodyStructure} (before : PartLoop calls parts text)
      (opens : text.head? = some (byte '('))
        (parsed : parseBodyStructureIn stale calls text = some (part, rest)) :
      PartLoop calls parts (skipSpaces rest)

def readBasicFields (text : Bytes) : Option (BodyStructure × Bytes) := do
  let (mediaType, text) ← succeeded (readAstring text)
  let (subtype, text) ← succeeded (readAstring (skipSpaces text))
  let (parameters, text) ← parseBodyParams stale (skipSpaces text)
  let (id, text) ← readNstr [] (skipSpaces text)
  let (description, text) ← readNstr [] (skipSpaces text)
  let (encoding, text) ← succeeded (readAstring (skipSpaces text))
  let (octets, text) ← succeeded (readNumber (skipSpaces text))
  some ({ mediaType, subtype, parameters, id, description, encoding, octets }, text)

/-- What the parser leaves of a body for the loop over its extension data, if it comes to that. -/
def extensionOf (calls : Nat) (text : Bytes) : Option Bytes := do
  let text := skipSpaces (← tryConsume (byte '(') text)
  if text.head? == some (byte '(') then
    let (_, text) ← readParts (parseBodyStructureIn stale calls) (text.length + 1) text
    let (_, text) ← succeeded (readAstring text)
    some text
  else (readBasicFields stale text).map Prod.snd

theorem readBasic_fields (text : Bytes) :
    (readBasic stale text).map Prod.snd =
      (readBasicFields stale text).bind fun field =>
      skipTail (field.2.length + 1) (skipSpaces field.2) := by
  simp only [readBasic, readBasicFields, Option.bind_eq_bind, Option.map_bind, Option.bind_assoc,
    Option.bind_some, Function.comp_def, Option.map_some, Option.bind_fun_some]

theorem parseBodyStructureIn_extension (calls : Nat) (text : Bytes) :
    (parseBodyStructureIn stale (calls + 1) text).map Prod.snd =
      (extensionOf stale calls text).bind fun text => skipTail (text.length + 1) (skipSpaces text) := by
  rw [parseBodyStructureIn, extensionOf]
  cases tryConsume (byte '(') text with
  | none => rfl
  | some text =>
    simp only [Option.bind_eq_bind, Option.bind_some]
    split
    · simp only [Option.map_bind, Option.bind_assoc, Option.bind_some, Function.comp_def,
        Option.map_some, Option.bind_fun_some]
    · rw [readBasic_fields, Option.bind_map]
      rfl

end Bodies

section Calls

/-- A call that is active: of `parse_body_structure`, with the calls that the bound still allows
    below it, or of `skip_value`. -/
inductive Call where
  | body (calls : Nat) (text : Bytes)
  | skip (text : Bytes)

/-- The call that the sink of `parse_fetch_attributes` makes of an attribute, if it makes one. -/
def attributeCall (key value : Bytes) : Option Call :=
  if 6 < key.length && asciiIequals (key.take 5) (ascii "BODY[") && key.getLast? ==
    some (byte ']') then none
  else if asciiIequals key (ascii "FLAGS") then none
  else if asciiIequals key (ascii "UID") then none
  else if asciiIequals key (ascii "INTERNALDATE") then none
  else if asciiIequals key (ascii "RFC822.SIZE") then none
  else if asciiIequals key (ascii "ENVELOPE") then none
  else if asciiIequals key (ascii "BODYSTRUCTURE") then some (.body (kMaxBodyStructureDepth + 1) value)
  else some (.skip value)

def attributeAt (text : Bytes) : Option (Bytes × Bytes) :=
  let text := skipSpaces text
  if text.head? == some (byte ')') || text.isEmpty then none
  else
    let (key, text) := readKey 0 text
    if key.isEmpty then none else some (key, skipSpaces text)

variable (stale : Bytes → Bytes → Bytes) (payload : Bytes)

/-- Where the walk over the attributes of a payload comes by, and what is filled in by then. -/
inductive AttributeLoop : MessageAttributes → Bytes → Prop
  | start {text : Bytes} (opened : tryConsume (byte '(') payload = some text) : AttributeLoop {} text
  | next {out after : MessageAttributes} {text key value rest : Bytes} (before : AttributeLoop out text)
      (found : attributeAt text = some (key, value))
        (sunk : attributesSink stale out key value = some (after, rest)) :
      AttributeLoop after rest

/-- The active calls at some time of `parse_fetch_attributes`, the innermost first. -/
inductive CallStack : List Call → Prop
  | idle : CallStack []
  | outermost {out : MessageAttributes} {text key value : Bytes} {call : Call}
      (walk : AttributeLoop stale payload out text) (found : attributeAt text = some (key, value))
      (made : attributeCall key value = some call) : CallStack [call]
  | part {calls : Nat} {text parts child : Bytes} {below : List Call}
      (active : CallStack (.body (calls + 1) text :: below)) (opened : partsOf text = some parts)
      (loop : PartLoop stale calls parts child) (opens : child.head? = some (byte '(')) :
      CallStack (.body calls child :: .body (calls + 1) text :: below)
  | extension {calls : Nat} {text tail value : Bytes} {below : List Call}
      (active : CallStack (.body (calls + 1) text :: below))
        (reached : extensionOf stale calls text = some tail)
      (loop : TailLoop (skipSpaces tail) value) (begins : BeginsValue value) :
      CallStack (.skip value :: .body (calls + 1) text :: below)
  | member {list text : Bytes} {below : List Call}
      (active : CallStack (.skip (byte '(' :: list) :: below))
      (loop : MemberLoop list text) (begins : BeginsValue (skipSpaces text)) :
      CallStack (.skip (skipSpaces text) :: .skip (byte '(' :: list) :: below)

/-- The bodies that the parser reads, each by the bodies that it is in, itself among them, and by
    the calls that the bound allows for it. -/
inductive ParsedBody : Nat → Nat → Bytes → Prop
  | attributeValue {out : MessageAttributes} {calls : Nat} {text key value : Bytes}
      (walk : AttributeLoop stale payload out text) (found : attributeAt text = some (key, value))
      (made : attributeCall key value = some (.body calls value)) : ParsedBody 1 calls value
  | part {bodies calls : Nat} {text parts child : Bytes} (outer : ParsedBody bodies (calls + 1) text)
      (opened : partsOf text = some parts) (loop : PartLoop stale calls parts child)
      (opens : child.head? = some (byte '(')) : ParsedBody (bodies + 1) calls child

/-- The values that the parser skips, of an unknown attribute or in the extension data of a body, by
    the bodies that they are in. -/
inductive SkippedValue : Nat → Bytes → Prop
  | attributeValue {out : MessageAttributes} {text key value : Bytes}
      (walk : AttributeLoop stale payload out text)
      (found : attributeAt text = some (key, value))
        (made : attributeCall key value = some (.skip value)) :
      SkippedValue 0 value
  | extension {bodies calls : Nat} {text tail value : Bytes}
      (body : ParsedBody stale payload bodies (calls + 1) text)
      (reached : extensionOf stale calls text = some tail) (loop : TailLoop (skipSpaces tail) value)
      (begins : BeginsValue value) : SkippedValue bodies value

theorem walkAttributes_at (fuel : Nat) (out : MessageAttributes) (text : Bytes) :
    walkAttributes (attributesSink stale) (fuel + 1) out text =
      if (skipSpaces text).head? == some (byte ')') then some out
      else (attributeAt text).bind fun entry =>
        (attributesSink stale out entry.1 entry.2).bind fun (out, rest) =>
        walkAttributes (attributesSink stale) fuel out rest := by
  rw [walkAttributes, attributeAt]
  by_cases closed : (skipSpaces text).head? == some (byte ')')
  · simp [closed]
  · by_cases empty : (skipSpaces text).isEmpty
    · simp [closed, empty]
    · simp only [closed, empty, Bool.false_eq_true, ↓reduceIte, Bool.or_false]
      split <;> rfl

theorem attributesSink_call (out : MessageAttributes) {key value : Bytes} {call : Call}
    (made : attributeCall key value = some call) :
    (call = .body (kMaxBodyStructureDepth + 1) value ∧
      (attributesSink stale out key value).map Prod.snd =
      (parseBodyStructure stale value).map Prod.snd) ∨
    (call = .skip value ∧ (attributesSink stale out key value).map Prod.snd = skipValue value) := by
  rw [attributeCall] at made
  rw [attributesSink]
  split at made
  · cases made
  rename_i section_
  split at made
  · cases made
  rename_i flags
  split at made
  · cases made
  rename_i uid
  split at made
  · cases made
  rename_i internalDate
  split at made
  · cases made
  rename_i rfc822Size
  split at made
  · cases made
  rename_i envelope
  rw [if_neg section_, if_neg flags, if_neg uid, if_neg internalDate, if_neg rfc822Size,
    if_neg envelope]
  split at made
  · rename_i bodyStructure
    cases made
    rw [if_pos bodyStructure, Option.map_map]
    exact .inl ⟨rfl, rfl⟩
  · rename_i unknown
    cases made
    rw [if_neg unknown, Option.map_map]
    exact .inr ⟨rfl, by cases skipValue value <;> rfl⟩

theorem attributeCall_cases {key value : Bytes} {call : Call}
    (made : attributeCall key value = some call) :
    call = .body (kMaxBodyStructureDepth + 1) value ∨ call = .skip value :=
  (attributesSink_call (fun old _ => old) {} made).imp And.left And.left

end Calls

section Counting

/-- The places of a value by the parentheses that are open there, told by a count. -/
inductive Counted (value : Bytes) : Nat → Bytes → Prop
  | start {list : Bytes} (opens : value = byte '(' :: list) : Counted value 1 list
  | opens {opened : Nat} {text list : Bytes} (before : Counted value opened text)
      (opens : skipSpaces text = byte '(' :: list) : Counted value (opened + 1) list
  | closes {opened : Nat} {text rest : Bytes} (before : Counted value (opened + 2) text)
      (closes : skipSpaces text = byte ')' :: rest) : Counted value (opened + 1) rest
  | passes {opened : Nat} {text rest : Bytes} (before : Counted value opened text)
      (begins : BeginsValue (skipSpaces text)) (unopened : (skipSpaces text).head? ≠ some (byte '('))
      (skipped : skipValue (skipSpaces text) = some rest) : Counted value opened rest

theorem Counted.pos {value : Bytes} {opened : Nat} {text : Bytes}
    (counted : Counted value opened text) : 0 < opened := by
  induction counted with
  | start => exact Nat.one_pos
  | opens => exact Nat.succ_pos _
  | closes => exact Nat.succ_pos _
  | passes _ _ _ _ ih => exact ih

theorem MemberLoop.skipMembers_eq {list text : Bytes} (loop : MemberLoop list text) :
    skipMembers list = skipMembers text := by
  induction loop with
  | start => rfl
  | @next text rest before begins skipped ih =>
    obtain ⟨some_byte, unclosed⟩ := begins
    rw [ih, Fetch.skipMembers_eq text]
    cases eq : skipSpaces text with
    | nil => exact absurd eq some_byte
    | cons c more =>
      rw [eq] at unclosed skipped
      have other : c ≠ byte ')' := fun same => unclosed (congrArg some same)
      simp [tryConsume, other, skipped]

theorem MemberLoop.closed {list text rest : Bytes} (loop : MemberLoop list text)
    (closes : skipSpaces text = byte ')' :: rest) : skipMembers list = some rest := by
  rw [loop.skipMembers_eq, Fetch.skipMembers_eq, closes]
  simp [tryConsume]

/-- The count passes over a value that is skipped, and closes a list that is skipped. -/
theorem Counted.skip {value : Bytes} (size : Nat) :
    ∀ {opened : Nat} {text rest : Bytes}, text.length < size → Counted value opened text →
      (BeginsValue (skipSpaces text) → skipValue (skipSpaces text) = some rest →
      Counted value opened rest) ∧ (2 ≤ opened → skipMembers text = some rest →
      Counted value (opened - 1) rest) := by
  induction size with
  | zero => exact fun few => absurd few (Nat.not_lt_zero _)
  | succ size ih =>
    intro opened text rest few counted
    have spaces := skipSpaces_le text
    have passed : ∀ {rest : Bytes}, BeginsValue (skipSpaces text) →
      skipValue (skipSpaces text) = some rest → Counted value opened rest := by
      intro rest begins skipped
      by_cases opens : (skipSpaces text).head? = some (byte '(')
      · obtain ⟨list, eq⟩ := List.head?_eq_some_iff.mp opens
        rw [eq, skipValue_open] at skipped
        rw [eq, List.length_cons] at spaces
        have inner := counted.opens eq
        have pos := counted.pos
        exact (ih (by omega) inner).2 (by omega) skipped
      · exact counted.passes begins opens skipped
    refine ⟨passed, fun inside skipped => ?_⟩
    rw [skipMembers_eq] at skipped
    cases eq : skipSpaces text with
    | nil =>
      rw [eq] at skipped
      simp [tryConsume] at skipped
    | cons c more =>
      by_cases closes : c = byte ')'
      · obtain ⟨outer, rfl⟩ : ∃ outer, opened = outer + 2 := ⟨opened - 2, by omega⟩
        rw [eq, closes] at skipped
        have rest_eq : more = rest := by simpa [tryConsume] using skipped
        exact counted.closes (by rw [eq, closes, rest_eq])
      · have begins : BeginsValue (skipSpaces text) := by
          rw [eq]
          exact ⟨by simp, by simpa using closes⟩
        have loop : (skipValue (skipSpaces text)).bind skipMembers = some rest := by
          rw [eq] at skipped ⊢
          simpa [tryConsume, closes] using skipped
        obtain ⟨middle, value_skipped, members⟩ := Option.bind_eq_some_iff.mp loop
        have shorter : middle.length < (skipSpaces text).length := (skip_shorter _).1 _ _ value_skipped
        exact (ih (by omega) (passed begins value_skipped)).2 inside members

theorem Counted.loop {value : Bytes} {opened : Nat} {list text : Bytes}
    (counted : Counted value opened list)
    (loop : MemberLoop list text) : Counted value opened text := by
  induction loop with
  | start => exact counted
  | next before begins skipped ih => exact (Counted.skip _ (Nat.lt_succ_self _) ih).1 begins skipped

/-- The lists of a value that are open at one time, each from behind its parenthesis and with the
    place that its loop has come to, the innermost first. -/
inductive OpenLists (value : Bytes) : List (Bytes × Bytes) → Prop
  | one {list text : Bytes} (opens : value = byte '(' :: list) (loop : MemberLoop list text) :
      OpenLists value [(list, text)]
  | more {list text outer place : Bytes} {others : List (Bytes × Bytes)}
      (before : OpenLists value ((outer, place) :: others))
        (opens : skipSpaces place = byte '(' :: list)
      (loop : MemberLoop list text) : OpenLists value ((list, text) :: (outer, place) :: others)

theorem OpenLists.loop {value list text : Bytes} {others : List (Bytes × Bytes)}
    (lists : OpenLists value ((list, text) :: others)) : MemberLoop list text := by
  cases lists with
  | one _ loop => exact loop
  | more _ _ loop => exact loop

theorem OpenLists.advance {value list text next : Bytes} {others : List (Bytes × Bytes)}
    (lists : OpenLists value ((list, text) :: others)) (loop : MemberLoop list next) :
    OpenLists value ((list, next) :: others) := by
  cases lists with
  | one opens _ => exact .one opens loop
  | more before opens _ => exact .more before opens loop

theorem Counted.lists {value : Bytes} {opened : Nat} {text : Bytes}
    (counted : Counted value opened text) :
    ∃ list others, OpenLists value ((list, text) :: others) ∧ others.length + 1 = opened := by
  induction counted with
  | start opens => exact ⟨_, [], .one opens .start, rfl⟩
  | opens before opens ih =>
    obtain ⟨outer, others, lists, length⟩ := ih
    exact ⟨_, _, .more lists opens .start, congrArg (· + 1) length⟩
  | closes before closes ih =>
    obtain ⟨list, others, lists, length⟩ := ih
    cases lists with
    | one => cases length
    | @more _ _ outer place others below opens loop =>
      have skipped := loop.closed closes
      rw [← skipValue_open, ← opens] at skipped
      exact ⟨outer, others, below.advance (below.loop.next (beginsValue_open opens) skipped),
        Nat.succ.inj length⟩
  | passes before begins unopened skipped ih =>
    obtain ⟨list, others, lists, length⟩ := ih
    exact ⟨list, others, lists.advance (lists.loop.next begins skipped), length⟩

end Counting

section Stacks

variable {stale : Bytes → Bytes → Bytes} {payload : Bytes}

theorem OpenLists.stack {value list text : Bytes} {below : List Call} {others : List (Bytes × Bytes)}
    (active : CallStack stale payload (.skip value :: below))
    (lists : OpenLists value ((list, text) :: others)) :
    ∃ stack, CallStack stale payload (.skip (byte '(' :: list) :: stack) ∧
      stack.length = others.length + below.length := by
  induction others generalizing list text with
  | nil =>
    cases lists with
    | one opens loop => exact ⟨below, opens ▸ active, (Nat.zero_add _).symm⟩
  | cons outer others ih =>
    cases lists with
    | @more _ _ outer place _ before opens loop =>
      obtain ⟨stack, calls, length⟩ := ih before
      have inner := calls.member before.loop (beginsValue_open opens)
      rw [opens] at inner
      refine ⟨_, inner, ?_⟩
      simp only [List.length_cons, length]
      omega

theorem ParsedBody.count {bodies calls : Nat} {text : Bytes}
    (body : ParsedBody stale payload bodies calls text) :
    bodies + calls = kMaxBodyStructureDepth + 2 := by
  induction body with
  | attributeValue walk found made =>
    rcases attributeCall_cases made with same | same
    · cases same
      exact Nat.add_comm _ _
    · cases same
  | part outer opened loop opens ih => omega

theorem ParsedBody.stack {bodies calls : Nat} {text : Bytes}
    (body : ParsedBody stale payload bodies calls text) :
    ∃ below, CallStack stale payload (.body calls text :: below) ∧ below.length + 1 = bodies := by
  induction body with
  | attributeValue walk found made => exact ⟨[], .outermost walk found made, rfl⟩
  | part outer opened loop opens ih =>
    obtain ⟨below, active, length⟩ := ih
    exact ⟨_, active.part opened loop opens, congrArg (· + 1) length⟩

theorem SkippedValue.stack {bodies : Nat} {value : Bytes}
    (skipped : SkippedValue stale payload bodies value) :
    ∃ below, CallStack stale payload (.skip value :: below) ∧ below.length = bodies := by
  cases skipped with
  | attributeValue walk found made => exact ⟨[], .outermost walk found made, rfl⟩
  | extension body reached loop begins =>
    obtain ⟨below, active, length⟩ := body.stack
    exact ⟨_, active.extension reached loop begins, length⟩

theorem CallStack.parsed {stack below : List Call} (active : CallStack stale payload stack)
    {calls : Nat} {text : Bytes} (top : stack = .body calls text :: below) :
    ParsedBody stale payload stack.length calls text := by
  induction active generalizing calls text below with
  | idle => cases top
  | outermost walk found made =>
    obtain ⟨rfl, -⟩ := List.cons.inj top
    rcases attributeCall_cases made with same | same
    · cases same
      exact .attributeValue walk found made
    · cases same
  | part active opened loop opens ih =>
    obtain ⟨same, -⟩ := List.cons.inj top
    cases same
    exact (ih rfl).part opened loop opens
  | extension => cases top
  | member => cases top

/-- A call of `skip_value` is inside of a value that is skipped, at a place that the count knows. -/
theorem CallStack.skip_counted {stack : List Call} (active : CallStack stale payload stack)
    {text : Bytes}
    {below : List Call} (top : stack = .skip text :: below) :
    ∃ bodies value, SkippedValue stale payload bodies value ∧ bodies ≤ kMaxBodyStructureDepth + 1 ∧
      (text = value ∧ below.length = bodies ∨
        ∃ opened place, Counted value opened place ∧ skipSpaces place = text ∧ BeginsValue text ∧
          below.length = bodies + opened) := by
  induction active generalizing text below with
  | idle => cases top
  | outermost walk found made =>
    obtain ⟨rfl, rfl⟩ := List.cons.inj top
    rcases attributeCall_cases made with same | same
    · cases same
    · cases same
      exact ⟨0, _, .attributeValue walk found made, Nat.zero_le _, .inl ⟨rfl, rfl⟩⟩
  | part => cases top
  | extension active reached loop begins =>
    obtain ⟨same, rfl⟩ := List.cons.inj top
    cases same
    have body := active.parsed rfl
    have count := body.count
    exact ⟨_, _, .extension body reached loop begins, by omega, .inl ⟨rfl, rfl⟩⟩
  | @member list place outer active loop begins ih =>
    obtain ⟨same, rfl⟩ := List.cons.inj top
    cases same
    obtain ⟨bodies, value, skipped, few,
      ⟨eq, length⟩ | ⟨opened, before, counted, opens, -, length⟩⟩ := ih rfl
    · have counted := (Counted.start eq.symm).loop loop
      exact ⟨bodies, value, skipped, few,
        .inr ⟨1, place, counted, rfl, begins, congrArg (· + 1) length⟩⟩
    · have counted := (counted.opens opens).loop loop
      exact ⟨bodies, value, skipped, few,
        .inr ⟨opened + 1, place, counted, rfl, begins, congrArg (· + 1) length⟩⟩

end Stacks

/-- For each constant: no more calls are active than the bound and the constant allow exactly if no
    value that is skipped opens more parentheses around another than these leave to it. -/
theorem callStack_bounded_iff (stale : Bytes → Bytes → Bytes) (payload : Bytes) (extra : Nat) :
    (∀ stack, CallStack stale payload stack → stack.length ≤ kMaxBodyStructureDepth + (2 + extra)) ↔
      ∀ bodies value, SkippedValue stale payload bodies value →
        ∀ opened place, Counted value opened place → BeginsValue (skipSpaces place) →
          bodies + opened + 1 ≤ kMaxBodyStructureDepth + (2 + extra) := by
  constructor
  · intro bounded bodies value skipped opened place counted begins
    obtain ⟨below, active, count⟩ := skipped.stack
    obtain ⟨list, others, lists, length⟩ := counted.lists
    obtain ⟨stack, calls, height⟩ := lists.stack active
    have most := bounded _ (calls.member lists.loop begins)
    simp only [List.length_cons] at most
    omega
  · intro bounded stack active
    cases stack with
    | nil => exact Nat.zero_le _
    | cons call below =>
      cases call with
      | body calls text =>
        have count := (active.parsed rfl).count
        omega
      | skip text =>
        rw [List.length_cons]
        obtain ⟨bodies, value, skipped, few,
          ⟨-, length⟩ | ⟨opened, place, counted, rfl, begins, length⟩⟩ :=
          active.skip_counted rfl
        · omega
        · have inside := bounded bodies value skipped opened place counted begins
          omega

def openings (depth : Nat) : Bytes := List.replicate depth (byte '(')

theorem skipSpaces_openings (depth : Nat) : skipSpaces (openings depth) = openings depth := by
  cases depth <;> rfl

/-- An attribute of parentheses only: of each, the loop comes to the next. -/
theorem callStack_unbounded :
    ¬ ∃ extra, ∀ payload stack, CallStack (fun old _ => old) payload stack →
      stack.length ≤ kMaxBodyStructureDepth + extra := by
  rintro ⟨extra, bounded⟩
  have deep (depth : Nat) : ∀ opened, opened < depth →
      ∃ stack, CallStack (fun old _ =>
      old) (ascii "(X " ++ openings depth) (.skip (openings (depth - opened)) :: stack) ∧
        stack.length = opened := by
    intro opened few
    induction opened with
    | zero =>
      have value : skipSpaces (byte ' ' :: openings depth) = openings depth := skipSpaces_openings depth
      have found : attributeAt (ascii "X " ++ openings depth) = some (ascii "X", openings depth) := by
        show some (ascii "X", skipSpaces (byte ' ' :: openings depth)) = _
        rw [value]
      exact ⟨[], .outermost (.start rfl) found rfl, rfl⟩
    | succ opened ih =>
      obtain ⟨stack, active, length⟩ := ih (by omega)
      obtain ⟨rest, eq⟩ : ∃ rest, depth - opened = rest + 2 := ⟨depth - opened - 2, by omega⟩
      have left : depth - (opened + 1) = rest + 1 := by omega
      rw [eq] at active
      have begins : BeginsValue (skipSpaces (openings (rest + 1))) := by
        rw [skipSpaces_openings]
        exact beginsValue_open rfl
      have opened_list : openings (rest + 2) = byte '(' :: openings (rest + 1) := rfl
      rw [opened_list] at active
      have inner := active.member .start begins
      rw [skipSpaces_openings] at inner
      rw [left]
      exact ⟨_, inner, congrArg (· + 1) length⟩
  obtain ⟨stack, active, length⟩ :=
    deep (kMaxBodyStructureDepth + extra + 1) (kMaxBodyStructureDepth + extra) (by omega)
  have := bounded _ _ active
  rw [List.length_cons] at this
  omega

end Bkmail.Fetch
