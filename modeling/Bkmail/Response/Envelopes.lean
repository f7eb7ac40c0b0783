import Bkmail.Response.Skipping
import Bkmail.Response.Strings

namespace Bkmail

open Cursor Bkmail.Fetch

def WireAddress.value (address : WireAddress) : Address :=
  { displayName := address.name.bytes, adl := address.adl.bytes, mailboxName := address.mailbox.bytes
    hostName := address.host.bytes }

def WireAddressList.value : WireAddressList → List Address
  | nil _ => []
  | addresses first rest => (first :: rest).map WireAddress.value

def WireEnvelope.value (envelope : WireEnvelope) : Envelope :=
  { date := envelope.date.bytes, subject := envelope.subject.bytes, «from» := envelope.«from».value
    sender := envelope.sender.value, replyTo := envelope.replyTo.value, «to» := envelope.«to».value
    cc := envelope.cc.value, bcc := envelope.bcc.value, inReplyTo := envelope.inReplyTo.bytes
    messageId := envelope.messageId.bytes }

def WireEnvelope.into (envelope : WireEnvelope) (out : Envelope) : Envelope :=
  { date := envelope.date.value.getD out.date, subject := envelope.subject.value.getD out.subject
    «from» := out.from ++ envelope.«from».value, sender := out.sender ++ envelope.sender.value
    replyTo := out.replyTo ++ envelope.replyTo.value, «to» := out.to ++ envelope.«to».value
    cc := out.cc ++ envelope.cc.value, bcc := out.bcc ++ envelope.bcc.value
    inReplyTo := envelope.inReplyTo.value.getD out.inReplyTo
    messageId := envelope.messageId.value.getD out.messageId }

theorem stops_closing (rest : Bytes) : Stops isAtomChar (byte ')' :: rest) := .cons (by decide) rest

theorem stops_spaced (rest : Bytes) : Stops isAtomChar (byte ' ' :: rest) := .cons (by decide) rest

theorem WireAddress.read (address : WireAddress) (fits : address.inner.Fits) (rest : Bytes) :
    readAddress (address.inner.text ++ byte ')' :: rest) = some (address.value, rest) := by
  simp only [inner, Phrase.sequence, Phrase.fits_spaced] at fits
  obtain ⟨name, adl, mailbox, host⟩ := fits
  simp only [inner, Phrase.sequence, Phrase.text_spaced, List.append_assoc, List.cons_append,
    readAddress, address.name.readNstr name (stops_spaced _),
    address.adl.readNstr_next adl (stops_spaced _),
    address.mailbox.readNstr_next mailbox (stops_spaced _),
    address.host.readNstr_next host (stops_closing rest),
    Option.bind_eq_bind, Option.bind_some, tryConsume_self]
  rfl

def addressesText (addresses : List WireAddress) : Bytes :=
  addresses.flatMap fun address => byte '(' :: (address.inner.text ++ [byte ')'])

theorem readAddresses_text (addresses : List WireAddress)
    (fits : ∀ address ∈ addresses, address.inner.Fits)
    {fuel : Nat} (enough : addresses.length < fuel) (rest : Bytes) :
    readAddresses fuel (addressesText addresses ++ byte ')' :: rest) =
    some (addresses.map WireAddress.value, rest) := by
  induction addresses generalizing fuel with
  | nil =>
    obtain ⟨fuel, rfl⟩ := Nat.exists_eq_succ_of_ne_zero (Nat.ne_zero_of_lt enough)
    rfl
  | cons first others ih =>
    obtain ⟨fuel, rfl⟩ := Nat.exists_eq_succ_of_ne_zero (Nat.ne_zero_of_lt enough)
    obtain ⟨fitsFirst, fitsOthers⟩ := List.forall_mem_cons.mp fits
    have tail := ih fitsOthers (Nat.lt_of_succ_lt_succ enough)
    have read := first.read fitsFirst (addressesText others ++ byte ')' :: rest)
    have layout : addressesText (first :: others) ++ byte ')' :: rest = byte '(' ::
        (first.inner.text ++ byte ')' :: (addressesText others ++ byte ')' :: rest)) := by
      simp [addressesText]
    have opened (text : Bytes) : Stops (· == byte ' ') (byte '(' :: text) := .cons (by decide) text
    rw [layout, readAddresses]
    simp only [skipSpaces_stops (opened _), tryConsume_of_ne (by decide : byte '(' ≠ byte ')'),
      tryConsume_self, Option.bind_eq_bind, Option.bind_some, read, tail]
    rfl

namespace WireAddressList

theorem length_addressesText (addresses : List WireAddress) :
    addresses.length ≤ (addressesText addresses).length := by
  induction addresses with
  | nil => simp
  | cons first rest ih =>
    simp only [addressesText, List.flatMap_cons, List.length_append, List.length_cons] at ih ⊢
    omega

theorem text_addresses (first : WireAddress) (rest : List WireAddress) :
    (addresses first rest).phrase.text = byte '(' :: (addressesText (first :: rest) ++ [byte ')']) := by
  rw [phrase, Phrase.text_group, Phrase.text_groups, addressesText, ← List.map_cons, List.flatMap_map]

theorem fits_addresses {first : WireAddress} {rest : List WireAddress}
    (fits : (addresses first rest).phrase.Fits) :
    ∀ address ∈ first :: rest, address.inner.Fits := by
  rw [phrase, Phrase.fits_group, Phrase.fits_groups, ← List.map_cons, List.forall_mem_map] at fits
  exact fits

theorem noSpace (list : WireAddressList) (rest : Bytes) :
    Stops (· == byte ' ') (list.phrase.text ++ rest) := by
  cases list with
  | nil spelling => exact (NString.nil spelling).noSpace rest
  | addresses first others =>
    rw [text_addresses]
    exact .cons (by decide) _

theorem read (list : WireAddressList) (fits : list.phrase.Fits) {out : List Address} {rest : Bytes}
    (stops : Stops isAtomChar rest) :
    parseAddressList out (list.phrase.text ++ rest) = some (out ++ list.value, rest) := by
  cases list with
  | nil spelling =>
    obtain ⟨taken, dropped⟩ := nil_take spelling rest
    simp [parseAddressList, consumeNil, phrase, value, taken, dropped, spelling.spells, stops_any stops]
  | addresses first others =>
    have enough : (first :: others).length <
        (addressesText (first :: others) ++ byte ')' :: rest).length + 1 := by
      have length := length_addressesText (first :: others)
      rw [List.length_append]
      omega
    have layout : (addresses first others).phrase.text ++ rest =
        byte '(' :: (addressesText (first :: others) ++ byte ')' :: rest) := by
      rw [text_addresses, List.cons_append, List.append_assoc, List.singleton_append]
    have noNil (text : Bytes) : consumeNil (byte '(' :: text) = none := rfl
    have read := readAddresses_text (first :: others) (fits_addresses fits) enough rest
    rw [layout, parseAddressList, noNil, tryConsume_self]
    simp only [Option.bind_some, read, Option.map_some, value]

theorem read_next (list : WireAddressList) (fits : list.phrase.Fits) {out : List Address} {rest : Bytes}
    (stops : Stops isAtomChar rest) :
    parseAddressList out (skipSpaces (byte ' ' :: (list.phrase.text ++ rest))) =
      some (out ++ list.value, rest) := by
  rw [skipSpaces_space (list.noSpace rest), list.read fits stops]

end WireAddressList

theorem WireEnvelope.read_into (envelope : WireEnvelope) (fits : envelope.phrase.Fits)
    (out : Envelope) (rest : Bytes) :
    parseEnvelopeInto out (envelope.phrase.text ++ rest) = some (envelope.into out, rest) := by
  simp only [phrase, Phrase.list, Phrase.sequence, Phrase.fits_group, Phrase.fits_spaced] at fits
  obtain ⟨date, subject, sentFrom, sender, replyTo, sentTo, cc, bcc, inReplyTo, messageId⟩ := fits
  have space := stops_spaced
  simp only [phrase, Phrase.list, Phrase.sequence, Phrase.text_group, Phrase.text_spaced,
    List.append_assoc, List.cons_append, parseEnvelopeInto, tryConsume_self, Option.bind_eq_bind,
    Option.bind_some, List.nil_append, envelope.date.readNstr date (space _),
    envelope.subject.readNstr_next subject (space _),
    envelope.«from».read_next sentFrom (space _), envelope.sender.read_next sender (space _),
    envelope.replyTo.read_next replyTo (space _), envelope.«to».read_next sentTo (space _),
    envelope.cc.read_next cc (space _), envelope.bcc.read_next bcc (space _),
    envelope.inReplyTo.readNstr_next inReplyTo (space _),
    envelope.messageId.readNstr_next messageId (stops_closing rest)]
  rfl

theorem WireEnvelope.read (envelope : WireEnvelope) (fits : envelope.phrase.Fits) (rest : Bytes) :
    parseEnvelope (envelope.phrase.text ++ rest) = some (envelope.value, rest) :=
    envelope.read_into fits {} rest

def NString.ofBytes (bytes : Bytes) : NString := .string (.literal bytes)

def WireAddress.ofValue (address : Address) : WireAddress :=
  ⟨.ofBytes address.displayName, .ofBytes address.adl, .ofBytes address.mailboxName,
    .ofBytes address.hostName⟩

def WireAddressList.ofValue : List Address → WireAddressList
  | [] => .nil (.spelled "NIL" nil_inline)
  | first :: rest => .addresses (.ofValue first) (rest.map .ofValue)

def WireEnvelope.ofValue (envelope : Envelope) : WireEnvelope :=
  ⟨.ofBytes envelope.date, .ofBytes envelope.subject, .ofValue envelope.«from»,
    .ofValue envelope.sender, .ofValue envelope.replyTo, .ofValue envelope.«to»,
    .ofValue envelope.cc, .ofValue envelope.bcc, .ofBytes envelope.inReplyTo,
    .ofBytes envelope.messageId⟩

theorem WireAddressList.value_ofValue (addresses : List Address) :
    (ofValue addresses).value = addresses := by
  have same : WireAddress.value ∘ WireAddress.ofValue = id := rfl
  cases addresses with
  | nil => rfl
  | cons first rest =>
    rw [ofValue, value, List.map_cons, List.map_map, same, List.map_id]
    rfl

theorem WireEnvelope.value_ofValue (envelope : Envelope) : (ofValue envelope).value = envelope := by
  simp only [ofValue, value, WireAddressList.value_ofValue]
  rfl

/-- Every envelope can be written, and however it is written it is read back, up to the closing
    parenthesis. -/
theorem envelope_round_trip (envelope : Envelope) :
    (∃ wire : WireEnvelope, wire.value = envelope) ∧
      ∀ (wire : WireEnvelope) (rest : Bytes), wire.value = envelope → wire.phrase.text.length < 2 ^ 64 →
        parseEnvelope (wire.phrase.text ++ rest) = some (envelope, rest) := by
  refine ⟨⟨.ofValue envelope, WireEnvelope.value_ofValue envelope⟩, ?_⟩
  intro wire rest written short
  rw [wire.read (Phrase.fits_of_length short) rest, written]

theorem subject_round_trip : parseEnvelope
    ((WireEnvelope.ofValue { subject := ascii "a)" }).phrase.text ++ ascii " UID 7)") =
      some ({ subject := ascii "a)" }, ascii " UID 7)") :=
  (envelope_round_trip _).2 (.ofValue _) _ (WireEnvelope.value_ofValue _) (by decide +kernel)

end Bkmail
