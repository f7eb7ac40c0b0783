import Bkmail.Response.Walk

namespace Bkmail

open Cursor Bkmail.Fetch FetchAttribute

/-- A reader of one attribute succeeds in the midst of others, with the value that it has for the
    list of that attribute alone. -/
structure Unaffected {α : Type} (read : Bytes → Option α) (before : List FetchAttribute)
    (wanted : FetchAttribute)
    (after : List FetchAttribute) : Prop where
  succeeds : (read (attrList (before ++ wanted :: after))).isSome
  same : read (attrList (before ++ wanted :: after)) = read (attrList [wanted])

namespace FetchAttribute

theorem skip_value (item : FetchAttribute) (fits : item.value.Fits) {rest : Bytes}
    (delimited : Delimited rest) :
    skipValue (item.value.text ++ rest) = if item.value.marked then none else some rest :=
  Phrase.skipValue_value item.value_values.1 item.value_values.2 fits delimited

/-- The attributes that the walk passes: the brackets of the keys balance, and the values around the
    wanted one are not marked. -/
structure Readable (before : List FetchAttribute) (wanted : FetchAttribute)
    (after : List FetchAttribute) : Prop where
  balanced : ∀ item ∈ before ++ wanted :: after, Balanced item.key
  unmarked : ∀ item ∈ before ++ after, item.value.marked = false

/-- The key loop takes a space in the list for the end of a key with unbalanced brackets. -/
def Misread (items : List FetchAttribute) : Prop :=
  ∃ front item back, items = front ++ item :: back ∧ ¬ Balanced item.key ∧
    (readKey 0 (remaining (item :: back))).2.head? = some (byte ' ')

structure Seeks {σ : Type} (sink : σ → Bytes → Bytes → Option (σ × Bytes)) (isWanted : Bytes → Bool)
    (found : σ → σ)
    (wanted : FetchAttribute) : Prop where
  key : isWanted wanted.key = true
  skips : ∀ out key text, isWanted key = false → sink out key text = (skipValue text).map (out, ·)
  takes : ∀ out rest, Delimited rest →
    sink out wanted.key (wanted.value.text ++ rest) = some (found out, rest)
  ends : ∀ out key text, text = [] ∨ text.head? = some (byte ')') → sink out key text = none

def turn {σ : Type} (isWanted : Bytes → Bool) (found : σ → σ) (out : σ)
    (item : FetchAttribute) : Option σ :=
  if isWanted item.key then some (found out) else if item.value.marked then none else some out

theorem attrList_alone {before after : List FetchAttribute} {wanted : FetchAttribute}
    (fits : (attrList (before ++ wanted :: after)).length < 2 ^ 64) :
    (attrList ([] ++ wanted :: [])).length < 2 ^ 64 := by
  have member : wanted.text ∈ (before ++ wanted :: after).map text := List.mem_map_of_mem (by simp)
  have length := length_le_spaceSeparated member
  simp only [attrList, remaining, List.length_cons, List.length_append, List.nil_append,
    List.map_cons, List.map_nil, spaceSeparated, List.flatMap_nil, List.length_nil] at fits length ⊢
  omega

section Wanted

variable {σ : Type} {sink : σ → Bytes → Bytes → Option (σ × Bytes)} {isWanted : Bytes → Bool}
    {found : σ → σ}
  {before after : List FetchAttribute} {wanted : FetchAttribute}

theorem turn_skips {items : List FetchAttribute} (others : ∀ item ∈ items, isWanted item.key = false)
    (unmarked : ∀ item ∈ items, item.value.marked = false) (out : σ) :
    items.foldlM (turn isWanted found) out = some out := by
  induction items with
  | nil => rfl
  | cons first items ih =>
    obtain ⟨own, others⟩ := List.forall_mem_cons.mp others
    obtain ⟨plain, unmarked⟩ := List.forall_mem_cons.mp unmarked
    have passed : turn isWanted found out first = some out := by simp [turn, own, plain]
    rw [List.foldlM_cons, passed]
    exact ih others unmarked

namespace Seeks

variable (seeks : Seeks sink isWanted found wanted)
    (fits : (attrList (before ++ wanted :: after)).length < 2 ^ 64)
  (others : ∀ item ∈ before ++ after, isWanted item.key = false)
include seeks fits others

theorem consumes : ∀ item ∈ before ++ wanted :: after, ∀ out rest, Delimited rest →
    sink out item.key (item.value.text ++ rest) = (turn isWanted found out item).map (·, rest) := by
  intro item member out rest delimited
  by_cases same : item = wanted
  · subst same
    rw [seeks.takes out rest delimited, turn, if_pos seeks.key]
    rfl
  · have other : isWanted item.key = false := others item (by simpa [same] using member)
    rw [seeks.skips out _ _ other, item.skip_value (value_fits fits item member) delimited, turn, other]
    split <;> rfl

theorem walk (readable : Readable before wanted after) (out : σ) :
    walkFetchAttributes sink out (attrList (before ++ wanted :: after)) = some (found out) := by
  obtain ⟨othersFront, othersBack⟩ := List.forall_mem_append.mp others
  obtain ⟨front, back⟩ := List.forall_mem_append.mp readable.unmarked
  have folded : walkFetchAttributes sink out (attrList (before ++ wanted :: after)) =
      (before ++ wanted :: after).foldlM (turn isWanted found) out :=
    walk_entries (fun item _ => item.entry) (fun item member =>
      (balanced_iff.mp (readable.balanced item member)).2)
      (seeks.consumes fits others) out
  have taken : turn isWanted found out wanted = some (found out) := if_pos seeks.key
  rw [folded, List.foldlM_append, turn_skips othersFront front]
  change (wanted :: after).foldlM (turn isWanted found) out = _
  rw [List.foldlM_cons, taken]
  exact turn_skips othersBack back (found out)

/-- An unbalanced key or a marked value ends the walk, if no key is misread. -/
theorem walk_none (read : ¬ Misread (before ++ wanted :: after))
    (unreadable : ¬ Readable before wanted after)
    (out : σ) : walkFetchAttributes sink out (attrList (before ++ wanted :: after)) = none := by
  have ended {front back : List FetchAttribute} {item : FetchAttribute}
      (split : before ++ wanted :: after = front ++ item :: back) (unbalanced : ¬ Balanced item.key) :
      (readKey 0 (remaining (item :: back))).2.head? ≠ some (byte ' ') :=
    fun space => read ⟨front, item, back, split, unbalanced, space⟩
  have offends : ∃ item ∈ before ++ wanted :: after,
      bracketDepth 0 item.key ≠ some 0 ∨ ∀ out, turn isWanted found out item = none := by
    by_contra harmless
    push Not at harmless
    refine unreadable ⟨fun item member => ?_, fun item member => ?_⟩
    · obtain ⟨front, back, split⟩ := List.append_of_mem member
      by_contra unbalanced
      refine ended split unbalanced ?_
      have layout : remaining (item :: back) = item.key ++ byte ' ' :: (item.value.text ++
          ((back.map text).flatMap (byte ' ' :: ·) ++ [byte ')'])) := by
        simp [remaining, spaceSeparated, text]
      rw [layout, readKey_append (harmless item member).1]
      rfl
    · obtain ⟨out, passes⟩ := (harmless item (by
        rcases List.mem_append.mp member with inside | inside
        · exact List.mem_append_left _ inside
        · exact List.mem_append_right _ (List.mem_cons_of_mem _ inside))).2
      have other := others item member
      cases marked : item.value.marked with
      | false => rfl
      | true => exact absurd (by simp [turn, other, marked]) passes
  have lost := walk_fails (fun item _ => item.entry) (seeks.consumes fits others) seeks.ends
    (fun front item back split unbalanced => ended split fun balanced =>
    unbalanced (balanced_iff.mp balanced).2)
    offends
  rw [walkFetchAttributes, attrList, tryConsume_self, Option.bind_some, remaining]
  exact (spaceSeparated_read _ (walk_space _ out) _ _).trans (lost _ out)

end Seeks
end Wanted

section Ends

variable {text : Bytes} (ends : text = [] ∨ text.head? = some (byte ')'))
include ends

theorem ends_iff : text = [] ∨ ∃ rest, text = byte ')' :: rest := by
  rcases ends with empty | closing
  · exact .inl empty
  · obtain ⟨rest, shape⟩ := List.head?_eq_some_iff.mp closing
    exact .inr ⟨rest, shape⟩

theorem tryConsume_ends : tryConsume (byte '(') text = none := by
  obtain rfl | ⟨rest, rfl⟩ := ends_iff ends <;> rfl

theorem skipValue_ends : skipValue text = none := by
  obtain rfl | ⟨rest, rfl⟩ := ends_iff ends
  · rfl
  · rfl

theorem readNstring_ends : succeeded (readNstring text) = none := by
  obtain rfl | ⟨rest, rfl⟩ := ends_iff ends
  · rfl
  · rfl

end Ends

section Readers

variable {α σ : Type} {sink : σ → Bytes → Bytes → Option (σ × Bytes)} {isWanted : Bytes → Bool}
    {found : σ → σ}
  {before after : List FetchAttribute} {wanted : FetchAttribute} {read : Bytes → Option α} {start : σ}
  {finish : σ → Option α}

/-- A reader that walks with such a sink finds its attribute in a readable list, and in no other one
    whose keys are read as they are. -/
theorem Seeks.unaffected (seeks : Seeks sink isWanted found wanted)
    (fits : (attrList (before ++ wanted :: after)).length < 2 ^ 64)
    (others : ∀ item ∈ before ++ after, isWanted item.key = false)
    (walks : ∀ list, read list = (walkFetchAttributes sink start list).bind finish)
    (finds : (finish (found start)).isSome) :
    (Readable before wanted after → Unaffected read before wanted after) ∧
      (Unaffected read before wanted after → Readable before wanted after ∨
      Misread (before ++ wanted :: after)) := by
  constructor
  · intro readable
    have alone : Readable [] wanted [] :=
      ⟨fun item member => readable.balanced item (by simp [List.mem_singleton.mp member]), by simp⟩
    have amidst : read (attrList (before ++ wanted :: after)) = finish (found start) := by
      rw [walks, seeks.walk fits others readable, Option.bind_some]
    have single : read (attrList [wanted]) = finish (found start) := by
      have walk := seeks.walk (attrList_alone fits) (by simp) alone start
      rw [walks, ← List.nil_append [wanted], walk, Option.bind_some]
    exact ⟨amidst ▸ finds, amidst.trans single.symm⟩
  · intro unaffected
    by_contra neither
    obtain ⟨unreadable, unread⟩ := not_or.mp neither
    have succeeds := unaffected.succeeds
    rw [walks, seeks.walk_none fits others unread unreadable] at succeeds
    cases succeeds

end Readers

theorem envelope_seeks (name : Keyword "ENVELOPE") {value : WireEnvelope} (fits : value.phrase.Fits) :
    Seeks envelopeSink (asciiIequals · (ascii "ENVELOPE")) (fun out => some (value.into (out.getD {})))
      (envelope name value) := by
  have spelled : asciiIequals (envelope name value).key (ascii "ENVELOPE") = true := name.spells
  refine ⟨spelled, fun out key text other => if_neg (by simp [other]), fun out rest _ => ?_,
    fun out key text ends => ?_⟩
  · rw [envelopeSink, if_pos spelled, FetchAttribute.value, value.read_into fits]
    rfl
  · rw [envelopeSink]
    split
    · rw [parseEnvelopeInto, tryConsume_ends ends]
      rfl
    · rw [skipValue_ends ends]
      rfl

theorem section_seeks {sectionPrefix : Bytes} {name : Keyword "BODY"} {spec : Bytes}
    {origin : Option Nat}
    {value : NString} (fits : value.phrase.Fits)
    (requested : startsWith sectionPrefix (bodySection name spec origin value).key = true) :
    Seeks (sectionSink sectionPrefix) (startsWith sectionPrefix) (fun out =>
    (true, value.value.or out.2))
      (bodySection name spec origin value) := by
  refine ⟨requested, fun out key text other => if_neg (by simp [other]), fun out rest delimited => ?_,
    fun out key text ends => ?_⟩
  · rw [sectionSink, if_pos requested, FetchAttribute.value, value.read fits delimited.stops]
    rfl
  · rw [sectionSink]
    split
    · rw [readNstring_ends ends]
      rfl
    · rw [skipValue_ends ends]
      rfl

end FetchAttribute

/-- The readers of one attribute find it in the midst of others, if the brackets of all keys balance
    and no atom or flag in the values of the others begins with a backslash or a tilde. In any other
    list they fail, unless a key is misread. -/
theorem extra_attributes_iff (before after : List FetchAttribute) :
    (∀ (name : Keyword "ENVELOPE") (value : WireEnvelope),
      (attrList (before ++ envelope name value :: after)).length < 2 ^ 64 →
      (∀ item ∈ before ++ after, asciiIequals item.key (ascii "ENVELOPE") = false) →
      (Readable before (envelope name value) after →
        Unaffected parseEnvelopeAttribute before (envelope name value) after) ∧
      (Unaffected parseEnvelopeAttribute before (envelope name value) after →
        Readable before (envelope name value) after ∨
        Misread (before ++ envelope name value :: after))) ∧
    ∀ (sectionPrefix : Bytes) (name : Keyword "BODY") (spec : Bytes) (origin : Option Nat) (value : NString),
      (attrList (before ++ bodySection name spec origin value :: after)).length < 2 ^ 64 →
      startsWith sectionPrefix (bodySection name spec origin value).key = true →
      (∀ item ∈ before ++ after, startsWith sectionPrefix item.key = false) →
      (Readable before (bodySection name spec origin value) after →
        Unaffected (parseBodySectionAttribute sectionPrefix) before
        (bodySection name spec origin value) after) ∧
      (Unaffected (parseBodySectionAttribute sectionPrefix) before
      (bodySection name spec origin value) after →
      Readable before (bodySection name spec origin value) after ∨
          Misread (before ++ bodySection name spec origin value :: after)) := by
  constructor
  · intro name value fits others
    have walks (list : Bytes) :
      parseEnvelopeAttribute list = (walkFetchAttributes envelopeSink none list).bind id :=
      rfl
    have fitting := value_fits fits (envelope name value) (by simp)
    exact (envelope_seeks name fitting).unaffected fits others walks rfl
  · intro sectionPrefix name spec origin value fits requested others
    have fitting := value_fits fits (bodySection name spec origin value) (by simp)
    exact (section_seeks fitting requested).unaffected fits others (fun _ => rfl) rfl

/-- Attributes around an envelope, one of them with a nested list and one with a section. -/
def mixedBefore : List FetchAttribute :=
  [.flags (.spelled "FLAGS" flags_inline) [.inl ⟨ascii "Junk", by decide, by decide +kernel⟩],
    .other ⟨ascii "X-GM-LABELS", rfl⟩ (.list [.string (.literal (ascii ") (")), .list []]),
    .size (.spelled "RFC822.SIZE" size_inline) 4070]

def mixedAfter : List FetchAttribute :=
  [.bodySection (.spelled "BODY" body_inline) (ascii "HEADER.FIELDS (DATE)") none
    (.string (.literal (ascii "Date: x"))), .uid (.spelled "UID" uid_inline) 7]

def sentEnvelope : WireEnvelope :=
  .ofValue {
    date := ascii "Mon", subject := ascii "a)"
    «from» := [{ mailboxName := ascii "u", hostName := ascii "h" }] }

/-- The envelope and the section are found beside each other and the rest. -/
theorem envelope_beside_uid :
    Unaffected parseEnvelopeAttribute mixedBefore (.envelope (.spelled "ENVELOPE" envelope_inline) sentEnvelope)
    mixedAfter ∧ Unaffected (parseBodySectionAttribute (ascii "BODY[HEADER.FIELDS"))
        (mixedBefore ++ [.envelope (.spelled "ENVELOPE" envelope_inline) sentEnvelope])
        (.bodySection (.spelled "BODY" body_inline) (ascii "HEADER.FIELDS (DATE)") none
          (.string (.literal (ascii "Date: x"))))
        [.uid (.spelled "UID" uid_inline) 7] :=
  ⟨((extra_attributes_iff mixedBefore mixedAfter).1 _ _ (by decide +kernel) (by decide +kernel)).1
      ⟨by decide +kernel, by decide +kernel⟩,
    ((extra_attributes_iff _ [.uid (.spelled "UID" uid_inline) 7]).2 _ _ _ _ _ (by decide +kernel)
    (by decide +kernel)
      (by decide +kernel)).1 ⟨by decide +kernel, by decide +kernel⟩⟩

def nilEnvelope : FetchAttribute :=
  let nil : NString := .nil (.spelled "NIL" nil_inline)
  let none : WireAddressList := .nil (.spelled "NIL" nil_inline)
  .envelope (.spelled "ENVELOPE" envelope_inline) ⟨nil, nil, none, none, none, none, none,
    none, nil, nil⟩

/-- The FLAGS of a message that was seen make its envelope vanish. -/
theorem seen_flag_hides_envelope :
    let flags : FetchAttribute := .flags (.spelled "FLAGS" flags_inline)
      [.inr ⟨ascii "Seen", by decide, by decide +kernel⟩]
    attrList ([flags] ++ [nilEnvelope]) =
        ascii "(FLAGS (\\Seen) ENVELOPE (NIL NIL NIL NIL NIL NIL NIL NIL NIL NIL))" ∧
      parseEnvelopeAttribute (attrList [nilEnvelope]) = some {} ∧
      ¬ Unaffected parseEnvelopeAttribute [flags] nilEnvelope [] := by
  intro flags
  have failed :
    parseEnvelopeAttribute (attrList ([flags] ++ nilEnvelope :: [])) = none := by decide +kernel
  refine ⟨by decide +kernel, by decide +kernel, fun unaffected => ?_⟩
  have succeeds := unaffected.succeeds
  rw [failed] at succeeds
  cases succeeds

/-- A bracket in the name of a header field hides the envelope as well, unless the rest happens to
    read as attributes. -/
example : parseEnvelopeAttribute (ascii ("(BODY[HEADER.FIELDS (a[)] \"x\" " ++
      "ENVELOPE (NIL NIL NIL NIL NIL NIL NIL NIL NIL NIL))")) = none ∧
    parseEnvelopeAttribute (ascii ("(ENVELOPE (NIL NIL NIL NIL NIL NIL NIL NIL NIL NIL) " ++
      "BODY[HEADER.FIELDS (a] b)] \"x\")")) = some {} := by decide +kernel

end Bkmail
