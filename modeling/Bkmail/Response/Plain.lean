import Bkmail.Response.Values

namespace Bkmail

namespace Phrase

theorem values_sequence (first : Phrase) (rest : List Phrase) :
    (sequence first rest).Values ↔ ∀ phrase ∈ first :: rest, phrase.Values := by
  induction rest generalizing first with
  | nil => simp [sequence]
  | cons next rest ih => simp only [sequence, Values, ih, List.forall_mem_cons]

theorem marked_sequence (first : Phrase) (rest : List Phrase) :
    (sequence first rest).marked = (first :: rest).any marked := by
  induction rest generalizing first with
  | nil => simp [sequence]
  | cons next rest ih => simp only [sequence, marked, ih, List.any_cons]

theorem values_groups (first : Phrase) (rest : List Phrase) :
    (groups first rest).Values ↔ ∀ phrase ∈ first :: rest, phrase.Values := by
  have adjoined (front : Phrase) : (rest.foldl adjoined front).Values ↔
      front.Values ∧ ∀ inner ∈ rest, inner.Values := by
    induction rest generalizing front with
    | nil => simp
    | cons next rest ih => rw [List.foldl_cons, ih, Values, List.forall_mem_cons, and_assoc]
  rw [groups, adjoined, Values, List.forall_mem_cons]

theorem marked_groups (first : Phrase) (rest : List Phrase) :
    (groups first rest).marked = (first :: rest).any marked := by
  have adjoined (front : Phrase) :
      (rest.foldl adjoined front).marked = (front.marked || rest.any marked) := by
    induction rest generalizing front with
    | nil => simp
    | cons next rest ih => rw [List.foldl_cons, ih, marked, List.any_cons, Bool.or_assoc]
  rw [groups, adjoined, marked, List.any_cons]

theorem values_list (members : List Phrase) : (list members).Values ↔
    ∀ phrase ∈ members, phrase.Values := by
  cases members with
  | nil => simp [list, Values]
  | cons first rest => exact values_sequence first rest

theorem marked_list (members : List Phrase) : (list members).marked = members.any marked := by
  cases members with
  | nil => rfl
  | cons first rest => exact marked_sequence first rest

theorem single_list (members : List Phrase) : (list members).Single := by
  cases members <;> exact True.intro

structure Plain (phrase : Phrase) : Prop where
  values : phrase.Values
  unmarked : phrase.marked = false

section Lists

variable {first : Phrase} {rest members : List Phrase}

theorem any_unmarked (all : ∀ phrase ∈ members, phrase.Plain) : members.any marked = false :=
  List.any_eq_false.mpr fun phrase member => by simp [(all phrase member).unmarked]

theorem plain_sequence (all : ∀ phrase ∈ first :: rest, phrase.Plain) : (sequence first rest).Plain :=
  ⟨(values_sequence first rest).mpr fun phrase member => (all phrase member).values,
    (marked_sequence first rest).trans (any_unmarked all)⟩

theorem plain_groups (all : ∀ phrase ∈ first :: rest, phrase.Plain) : (groups first rest).Plain :=
  ⟨(values_groups first rest).mpr fun phrase member => (all phrase member).values,
    (marked_groups first rest).trans (any_unmarked all)⟩

theorem plain_list (all : ∀ phrase ∈ members, phrase.Plain) : (list members).Plain :=
  ⟨(values_list members).mpr fun phrase member => (all phrase member).values,
    (marked_list members).trans (any_unmarked all)⟩

theorem plain_group (inside : first.Plain) : (group first).Plain := ⟨inside.values, inside.unmarked⟩

end Lists
end Phrase

open Phrase

theorem WireString.plain (value : WireString) : value.phrase.Plain := by
  cases value with
  | quoted content => exact ⟨.quoted content, rfl⟩
  | literal octets => exact ⟨True.intro, rfl⟩

theorem NString.plain (value : NString) : value.phrase.Plain := by
  cases value with
  | nil spelling =>
    obtain ⟨c, tail, shape, upper⟩ := nil_head spelling
    have chars := atomChars_of_iequals spelling.spells (List.all_eq_true.mp rfl)
    have letter : ∀ c : UInt8, asciiToUpper c = byte 'N' → markedWord [c] = false :=
      forall_byte (by decide +kernel)
    refine ⟨.atom (by simp [shape]) chars, ?_⟩
    rw [phrase, marked, shape]
    exact letter c upper
  | string value => exact value.plain

theorem number_plain (n : Nat) : (numberPhrase n).Plain := by
  have digits := decimal_digits n
  obtain ⟨c, tail, shape⟩ := List.exists_cons_of_ne_nil (Cursor.decimal_ne_nil n)
  have unmarked : ∀ c : UInt8, isDigit c = true → markedWord [c] = false :=
    forall_byte (by decide +kernel)
  refine ⟨.atom (Cursor.decimal_ne_nil n) fun c member => digit_atomChar c (digits c member), ?_⟩
  change markedWord (decimal n) = false
  rw [shape]
  exact unmarked c (digits c (shape ▸ List.mem_cons_self))

theorem WireAddress.plain (address : WireAddress) : address.inner.Plain := by
  refine plain_sequence ?_
  simp only [List.forall_mem_cons, List.not_mem_nil, false_imp_iff, implies_true, and_true]
  exact ⟨address.name.plain, address.adl.plain, address.mailbox.plain, address.host.plain⟩

theorem WireAddressList.plain (list : WireAddressList) : list.phrase.Plain := by
  cases list with
  | nil spelling => exact (NString.nil spelling).plain
  | addresses first rest =>
    refine plain_group (plain_groups ?_)
    rw [← List.map_cons, List.forall_mem_map]
    exact fun address _ => address.plain

theorem WireEnvelope.plain (envelope : WireEnvelope) : envelope.phrase.Plain := by
  refine plain_list ?_
  simp only [List.forall_mem_cons, List.not_mem_nil, false_imp_iff, implies_true, and_true]
  exact ⟨envelope.date.plain, envelope.subject.plain, envelope.«from».plain, envelope.sender.plain,
    envelope.replyTo.plain, envelope.«to».plain, envelope.cc.plain, envelope.bcc.plain,
    envelope.inReplyTo.plain, envelope.messageId.plain⟩

theorem WireBodyParams.plain (params : WireBodyParams) : params.phrase.Plain := by
  cases params with
  | nil spelling => exact (NString.nil spelling).plain
  | params first rest =>
    rw [phrase]
    refine plain_list fun phrase member => ?_
    obtain ⟨⟨name, value⟩, -, inside⟩ := List.mem_flatMap.mp member
    rcases List.mem_pair.mp inside with rfl | rfl
    · exact name.plain
    · exact value.plain

theorem WireBodyFields.plain (fields : WireBodyFields) : ∀ phrase ∈ fields.phrases, phrase.Plain := by
  simp only [phrases, List.forall_mem_cons, List.not_mem_nil, false_imp_iff, implies_true, and_true]
  exact ⟨fields.params.plain, fields.id.plain, fields.description.plain, fields.encoding.plain,
    number_plain fields.octets⟩

mutual

theorem WireExtension.plain : ∀ extension : WireExtension, extension.phrase.Plain
  | .nstring value => by
    rw [phrase]
    exact value.plain
  | .number n => by
    rw [phrase]
    exact number_plain n
  | .list first rest => by
    rw [phrase]
    exact plain_list (List.forall_mem_cons.mpr ⟨first.plain, WireExtension.plains rest⟩)

theorem WireExtension.plains : ∀ extensions, ∀ phrase ∈ WireExtension.phrases extensions, phrase.Plain
  | [] => by simp [phrases]
  | first :: rest => by
    rw [phrases, List.forall_mem_cons]
    exact ⟨first.plain, WireExtension.plains rest⟩

end

mutual

theorem WireBody.plain : ∀ body : WireBody, body.inner.Plain
  | .basic mediaType subtype fields extensions => by
    rw [inner]
    refine plain_sequence ?_
    simp only [List.forall_mem_cons, List.cons_append, List.forall_mem_append]
    exact ⟨mediaType.plain, subtype.plain, fields.plain, WireExtension.plains extensions⟩
  | .message mediaType subtype fields envelope body lines extensions => by
    rw [inner]
    refine plain_sequence ?_
    simp only [List.forall_mem_cons, List.cons_append, List.forall_mem_append]
    exact ⟨mediaType.plain, subtype.plain,
      ⟨fields.plain, envelope.plain, plain_group body.plain, number_plain lines, by simp⟩,
      WireExtension.plains extensions⟩
  | .multipart first rest subtype extensions => by
    rw [inner]
    refine plain_sequence ?_
    simp only [List.forall_mem_cons]
    exact ⟨plain_groups (List.forall_mem_cons.mpr ⟨first.plain, WireBody.plains rest⟩), subtype.plain,
      WireExtension.plains extensions⟩

theorem WireBody.plains : ∀ bodies, ∀ phrase ∈ WireBody.inners bodies, phrase.Plain
  | [] => by simp [inners]
  | first :: rest => by
    rw [inners, List.forall_mem_cons]
    exact ⟨first.plain, WireBody.plains rest⟩

end

end Bkmail
