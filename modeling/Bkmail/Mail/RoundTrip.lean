import Bkmail.Mail.Folding

namespace Bkmail
open Fetch AppendCommand

structure HeaderText (value : Bytes) : Prop where
  returnless : byte '\r' ∉ value
  feedless : byte '\n' ∉ value
  unled : value.head?.any isWsp = false
  untrailed : value.getLast?.any isWsp = false

structure Mail.Sendable (message : Mail) : Prop where
  texts : ∀ value ∈ [message.header.subject, message.header.date, message.header.messageId,
    message.header.inReplyTo, message.body.contentType], HeaderText value
  addresses : ∀ list ∈ [message.header.from, message.header.to, message.header.cc, message.header.bcc],
    ∀ address ∈ list, address.Plain
  some_member : message.header ≠ {}

def mailFields (message : Mail) : List (Bytes × Bytes) :=
  let h := message.header
  [(ascii "Subject", h.subject), (ascii "From", renderAddresses h.from),
    (ascii "To", renderAddresses h.to), (ascii "Cc", renderAddresses h.cc),
    (ascii "Bcc", renderAddresses h.bcc), (ascii "Date", h.date),
    (ascii "Message-ID", h.messageId), (ascii "In-Reply-To", h.inReplyTo),
    (ascii "Content-Type", message.body.contentType)]

def fieldLine (field : Bytes × Bytes) : Bytes := field.1 ++ ascii ": " ++ field.2

def writtenFields (message : Mail) : List (Bytes × Bytes) :=
  (mailFields message).filter fun field => !field.2.isEmpty

section Lines

theorem firstEmptyLine_inside {previous : UInt8} (inside : previous ≠ lineFeed) (c : UInt8)
    (rest : Bytes) :
    firstEmptyLine previous (c :: rest) =
      (firstEmptyLine c rest).map fun cut => { cut with before := c :: cut.before } := by
  rw [firstEmptyLine]
  simp [inside]

/-- A line that is not empty goes in front of the first empty one. -/
theorem firstEmptyLine_line {line : Bytes} (some_byte : line ≠ []) (returnless : byte '\r' ∉ line)
    (feedless : byte '\n' ∉ line) (previous : UInt8) (rest : Bytes) :
    firstEmptyLine previous (line ++ crlf ++ rest) =
      (firstEmptyLine lineFeed rest).map fun cut =>
      { cut with before := line ++ crlf ++ cut.before } := by
  induction line generalizing previous with
  | nil => exact absurd rfl some_byte
  | cons c line ih =>
    have notReturn : c ≠ byte '\r' := fun same => returnless (same ▸ List.mem_cons_self)
    have notFeed : c ≠ lineFeed := fun same => feedless (same ▸ List.mem_cons_self)
    have skipped : firstEmptyLine previous (c :: line ++ crlf ++ rest) =
        (firstEmptyLine c (line ++ crlf ++ rest)).map fun cut =>
        { cut with before := c :: cut.before } := by
      rw [List.cons_append, List.cons_append, firstEmptyLine]
      simp [notReturn, notFeed]
    rw [skipped]
    cases line with
    | nil =>
      have ended : firstEmptyLine c ([] ++ crlf ++ rest) =
          (firstEmptyLine lineFeed rest).map fun cut => { cut with before := crlf ++ cut.before } := by
        show firstEmptyLine c (byte '\r' :: lineFeed :: rest) = _
        rw [firstEmptyLine_inside notFeed, firstEmptyLine_inside (by decide), Option.map_map]
        rfl
      rw [ended, Option.map_map]
      rfl
    | cons d line =>
      rw [ih (by simp) (fun mem => returnless (List.mem_cons_of_mem c mem))
        (fun mem => feedless (List.mem_cons_of_mem c mem)), Option.map_map]
      rfl

def linesText (lines : List Bytes) : Bytes := lines.flatMap (· ++ crlf)

theorem firstEmptyLine_lines {lines : List Bytes}
    (own : ∀ line ∈ lines, line ≠ [] ∧ byte '\r' ∉ line ∧ byte '\n' ∉ line) (body : Bytes) :
    firstEmptyLine lineFeed (linesText lines ++ crlf ++ body) = some ⟨linesText lines, crlf, body⟩ := by
  induction lines with
  | nil => rfl
  | cons line lines ih =>
    obtain ⟨some_byte, returnless, feedless⟩ := own line List.mem_cons_self
    have split : linesText (line :: lines) ++ crlf ++ body =
        line ++ crlf ++ (linesText lines ++ crlf ++ body) := by
      simp [linesText]
    rw [split, firstEmptyLine_line some_byte returnless feedless, ih fun line mem =>
      own line (List.mem_cons_of_mem _ mem)]
    rfl

theorem headerLines_lines {lines : List Bytes}
    (own : ∀ line ∈ lines, line ≠ [] ∧ byte '\r' ∉ line ∧ byte '\n' ∉ line) :
    headerLines (linesText lines) = lines := by
  induction lines with
  | nil => rfl
  | cons line lines ih =>
    have split : linesText (line :: lines) = line ++ LineBreak.crlf.bytes ++ linesText lines := by
      simp [linesText, LineBreak.bytes]
    rw [split, headerLines_line (own line List.mem_cons_self).2.2, ih fun line mem =>
      own line (List.mem_cons_of_mem _ mem)]

theorem messageParts_lines {lines : List Bytes} (some_line : lines ≠ [])
    (own : ∀ line ∈ lines, line ≠ [] ∧ byte '\r' ∉ line ∧ byte '\n' ∉ line) (body : Bytes) :
    (headerLines (splitMessage (linesText lines ++ crlf ++ body)).1,
    (splitMessage (linesText lines ++ crlf ++ body)).2) =
      (lines, body) := by
  have first := firstEmptyLine_lines own body
  have seen : (⟨linesText lines, crlf, body⟩ : LineCut).Seen := by
    left
    obtain ⟨front, last, rfl⟩ := (List.eq_nil_or_concat lines).resolve_left some_line
    refine ⟨rfl, linesText front ++ last, by simp [linesText], ?_⟩
    obtain ⟨some_byte, returnless, -⟩ := own last (by simp)
    rw [List.getLast?_append, List.getLast?_eq_some_getLast some_byte]
    intro same
    exact returnless (Option.some.inj same ▸ List.getLast_mem some_byte)
  rw [(splitMessage_iff _).mpr, messageParts_of_cut first, headerLines_lines own]
  intro cut found
  cases first.symm.trans found
  exact seen

end Lines

section Fields

/-- A value that a field is written with and read back from. -/
structure FieldValue (value : Bytes) : Prop extends HeaderText value where
  some_byte : value ≠ []

theorem FieldValue.trimmed {value : Bytes} (own : FieldValue value) :
    (if (byte ' ' :: value).all isWsp then byte ' ' :: value
    else (byte ' ' :: value).dropWhile isWsp) = value := by
  have blank : isWsp (byte ' ') = true := rfl
  have unled := own.unled
  cases value with
  | nil => exact absurd rfl own.some_byte
  | cons c rest =>
    have first : isWsp c = false := unled
    rw [List.dropWhile_cons_of_pos blank, List.dropWhile_cons_of_neg (by simp [first])]
    simp [first]

theorem rdropWhile_of_untrailed {value : Bytes} (untrailed : value.getLast?.any isWsp = false) :
    value.rdropWhile isWsp = value := by
  rw [List.rdropWhile_eq_self_iff]
  intro some_byte
  rw [List.getLast?_eq_some_getLast some_byte, Option.any_some] at untrailed
  simp [untrailed]

def IsFieldName (name : Bytes) : Prop :=
  name ∈ ascii "Content-Type" :: fieldNames

theorem IsFieldName.clean {name : Bytes} (named : IsFieldName name) :
    byte ':' ∉ name ∧ byte '\r' ∉ name ∧ byte '\n' ∉ name ∧ name.head?.any isWsp = false ∧
    name ≠ [] := by
  simp only [IsFieldName, fieldNames, List.mem_cons, List.not_mem_nil, or_false] at named
  rcases named with rfl | rfl | rfl | rfl | rfl | rfl | rfl | rfl | rfl <;> decide

theorem fieldLine_clean {field : Bytes × Bytes} (named : IsFieldName field.1)
    (own : FieldValue field.2) :
    fieldLine field ≠ [] ∧ byte '\r' ∉ fieldLine field ∧ byte '\n' ∉ fieldLine field := by
  obtain ⟨-, returnless, feedless, -, -⟩ := named.clean
  have colon : byte '\r' ∉ ascii ": " ∧ byte '\n' ∉ ascii ": " := by decide
  refine ⟨by simp [fieldLine, ascii], ?_, ?_⟩
  · simp only [fieldLine, List.mem_append, returnless, colon.1, own.returnless, or_self,
      not_false_eq_true]
  · simp only [fieldLine, List.mem_append, feedless, colon.2, own.feedless, or_self, not_false_eq_true]

theorem takeLines_fields {fields : List (Bytes × Bytes)}
    (own : ∀ field ∈ fields, IsFieldName field.1 ∧ FieldValue field.2) (pending : PendingField) :
    ((fields.map fieldLine).foldl PendingField.takeLine pending).flush.out =
      fields.foldl (fun out field => assignField out field.1 field.2) pending.flush.out := by
  induction fields generalizing pending with
  | nil => rfl
  | cons field fields ih =>
    obtain ⟨named, value⟩ := own field List.mem_cons_self
    obtain ⟨colonless, -, -, unled, -⟩ := named.clean
    have line :
      fieldLine field = field.1 ++ byte ':' :: (byte ' ' :: field.2) := by simp [fieldLine, ascii]
    rw [List.map_cons, List.foldl_cons, line, PendingField.takeLine_named colonless unled,
      value.trimmed, ih fun field mem => own field (List.mem_cons_of_mem _ mem), PendingField.flush_out]
    rfl

theorem readMail_fields {fields : List (Bytes × Bytes)} (some_field : fields ≠ [])
    (own : ∀ field ∈ fields, IsFieldName field.1 ∧ FieldValue field.2) (body : Bytes) :
    readMail (linesText (fields.map fieldLine) ++ crlf ++ body) =
      { header := fields.foldl (fun out field => assignField out field.1 field.2) {}, body := { data := body } } := by
  have clean : ∀ line ∈ fields.map fieldLine, line ≠ [] ∧ byte '\r' ∉ line ∧ byte '\n' ∉ line := by
    intro line mem
    obtain ⟨field, listed, rfl⟩ := List.mem_map.mp mem
    obtain ⟨named, value⟩ := own field listed
    exact fieldLine_clean named value
  have parts := messageParts_lines (by simpa using some_field) clean body
  obtain ⟨lines, behind⟩ := Prod.mk.inj parts
  have read (text : Bytes) : readMail text =
      { header := ((headerLines (splitMessage text).1).foldl PendingField.takeLine
      { out := {} }).flush.out, body := { data := (splitMessage text).2 } } := rfl
  rw [read, lines, takeLines_fields own, behind]
  rfl

end Fields

section Addresses

theorem FieldValue.append {front back : Bytes} (first : FieldValue front) (separator : Bytes)
    (returnless : byte '\r' ∉ separator) (feedless : byte '\n' ∉ separator) (last : FieldValue back) :
    FieldValue (front ++ separator ++ back) where
  returnless := by simp [first.returnless, returnless, last.returnless]
  feedless := by simp [first.feedless, feedless, last.feedless]
  unled := by
    have unled := first.unled
    cases front with
    | nil => exact absurd rfl first.some_byte
    | cons c rest => exact unled
  untrailed := by
    have untrailed := last.untrailed
    rw [List.getLast?_eq_some_getLast last.some_byte] at untrailed
    rw [List.getLast?_append, List.getLast?_eq_some_getLast last.some_byte]
    exact untrailed
  some_byte := by simp [first.some_byte]

theorem Address.Plain.rendered_value {address : Address} (plain : address.Plain) :
    FieldValue (renderAddress address) where
  returnless := by
    have email : byte '\r' ∉ address.email := plain.email_ne rfl (by decide)
    have between : byte '\r' ∉ ascii "\" <" := by decide
    rw [renderAddress]
    split
    · exact email
    · simp only [List.mem_append, List.mem_cons, email, between, plain.returnless, or_false,
        List.not_mem_nil]
      decide
  feedless := by
    have email : byte '\n' ∉ address.email := plain.email_ne rfl (by decide)
    have between : byte '\n' ∉ ascii "\" <" := by decide
    rw [renderAddress]
    split
    · exact email
    · simp only [List.mem_append, List.mem_cons, email, between, plain.feedless, or_false,
        List.not_mem_nil]
      decide
  unled := by
    obtain ⟨c, rest, first, unblank⟩ := rendered_first plain
    rw [first]
    exact isWsp_of_isLwsp unblank
  untrailed := by
    rw [renderAddress]
    split
    · rw [List.getLast?_eq_some_getLast plain.email_some_byte]
      exact isWsp_of_isLwsp (plain.email_unblank (List.getLast_mem plain.email_some_byte))
    · rw [List.getLast?_concat]
      rfl
  some_byte := plain.rendered_some_byte

theorem renderAddresses_value {list : List Address} (plain : ∀ address ∈ list, address.Plain)
    (some_address : list ≠ []) :
    FieldValue (renderAddresses list) := by
  induction list with
  | nil => exact absurd rfl some_address
  | cons address others ih =>
    have own := plain address List.mem_cons_self
    cases others with
    | nil => exact own.rendered_value
    | cons next others =>
      rw [renderAddresses_cons]
      exact own.rendered_value.append (ascii ", ") (by decide) (by decide)
        (ih (fun address mem => plain address (List.mem_cons_of_mem _ mem)) (by simp))

theorem renderAddresses_eq_nil {list : List Address} (plain : ∀ address ∈ list, address.Plain) :
    renderAddresses list = [] ↔ list = [] := by
  constructor
  · intro empty
    by_contra some_address
    exact (renderAddresses_value plain some_address).some_byte empty
  · rintro rfl
    rfl

end Addresses

section Messages

variable {message : Mail}

theorem Mail.Sendable.written_value (sendable : message.Sendable) {field : Bytes × Bytes}
    (mem : field ∈ writtenFields message) : IsFieldName field.1 ∧ FieldValue field.2 := by
  obtain ⟨listed, written⟩ := List.mem_filter.mp mem
  have some_byte : field.2 ≠ [] := by simpa using written
  have text (value : Bytes)
    (own : value ∈ [message.header.subject, message.header.date, message.header.messageId,
      message.header.inReplyTo, message.body.contentType])
      (same : field.2 = value) : FieldValue field.2 :=
    ⟨same ▸ sendable.texts value own, some_byte⟩
  have addresses (list : List Address)
    (own : list ∈ [message.header.from, message.header.to, message.header.cc,
      message.header.bcc]) (same : field.2 = renderAddresses list) : FieldValue field.2 := by
    rw [same] at some_byte ⊢
    exact renderAddresses_value (sendable.addresses list own)
      fun empty => some_byte ((renderAddresses_eq_nil (sendable.addresses list own)).mpr empty)
  simp only [mailFields, List.mem_cons, List.not_mem_nil, or_false] at listed
  rcases listed with rfl | rfl | rfl | rfl | rfl | rfl | rfl | rfl | rfl
  · exact ⟨by simp [IsFieldName, fieldNames], text _ (by simp) rfl⟩
  · exact ⟨by simp [IsFieldName, fieldNames], addresses _ (by simp) rfl⟩
  · exact ⟨by simp [IsFieldName, fieldNames], addresses _ (by simp) rfl⟩
  · exact ⟨by simp [IsFieldName, fieldNames], addresses _ (by simp) rfl⟩
  · exact ⟨by simp [IsFieldName, fieldNames], addresses _ (by simp) rfl⟩
  · exact ⟨by simp [IsFieldName, fieldNames], text _ (by simp) rfl⟩
  · exact ⟨by simp [IsFieldName, fieldNames], text _ (by simp) rfl⟩
  · exact ⟨by simp [IsFieldName, fieldNames], text _ (by simp) rfl⟩
  · exact ⟨by simp [IsFieldName, fieldNames], text _ (by simp) rfl⟩

theorem Mail.Sendable.some_field (sendable : message.Sendable) : writtenFields message ≠ [] := by
  intro none
  apply sendable.some_member
  have empty (field : Bytes × Bytes) (mem : field ∈ mailFields message) : field.2 = [] := by
    simpa using List.filter_eq_nil_iff.mp none field mem
  have list (list : List Address)
    (own : list ∈ [message.header.from, message.header.to, message.header.cc,
      message.header.bcc]) (name : Bytes)
      (mem : (name, renderAddresses list) ∈ mailFields message) : list = [] :=
    (renderAddresses_eq_nil (sendable.addresses list own)).mp (empty _ mem)
  ext1
  · exact empty (ascii "Subject", _) (by simp [mailFields])
  · exact list _ (by simp) (ascii "From") (by simp [mailFields])
  · exact list _ (by simp) (ascii "To") (by simp [mailFields])
  · exact list _ (by simp) (ascii "Cc") (by simp [mailFields])
  · exact list _ (by simp) (ascii "Bcc") (by simp [mailFields])
  · exact empty (ascii "Date", _) (by simp [mailFields])
  · exact empty (ascii "Message-ID", _) (by simp [mailFields])
  · exact empty (ascii "In-Reply-To", _) (by simp [mailFields])

def fieldText (field : Bytes × Bytes) : Bytes := if field.2.isEmpty then [] else fieldLine field ++ crlf

theorem linesText_written (fields : List (Bytes × Bytes)) :
    linesText ((fields.filter fun field => !field.2.isEmpty).map fieldLine) =
    fields.flatMap fieldText := by
  induction fields with
  | nil => rfl
  | cons field fields ih =>
    rw [List.flatMap_cons, ← ih, fieldText]
    by_cases empty : field.2.isEmpty = true
    · rw [List.filter_cons_of_neg (by simp [empty]), if_pos empty, List.nil_append]
    · rw [List.filter_cons_of_pos (by simp [empty]), if_neg empty]
      rfl

theorem putAddresses_eq (name : String) {list : List Address}
    (plain : ∀ address ∈ list, address.Plain) :
    putAddresses name list = fieldText (ascii name, renderAddresses list) := by
  cases list with
  | nil => rfl
  | cons address others =>
    have some_byte := (renderAddresses_value plain (by simp)).some_byte
    rw [putAddresses, fieldText, if_neg (by simp), if_neg (by simpa using some_byte)]
    rfl

theorem Mail.Sendable.renderMail_eq (sendable : message.Sendable) :
    renderMail message = linesText ((writtenFields message).map fieldLine) ++ crlf ++
    message.body.data := by
  have text (name : String) (value : Bytes) : putField name value = fieldText (ascii name, value) := rfl
  rw [writtenFields, linesText_written, renderMail,
    putAddresses_eq "From" (sendable.addresses _ (by simp)),
    putAddresses_eq "To" (sendable.addresses _ (by simp)),
    putAddresses_eq "Cc" (sendable.addresses _ (by simp)),
    putAddresses_eq "Bcc" (sendable.addresses _ (by simp))]
  simp only [text, mailFields, List.flatMap_cons, List.flatMap_nil, List.append_nil, List.append_assoc]

theorem readField_text (set : MailHeader → Bytes → MailHeader) {out : MailHeader} {name value : Bytes}
    (unset : set out [] = out)
    (assigned : ∀ value, assignField out name value = set out (value.rdropWhile isWsp))
    (text : HeaderText value) :
    (if !value.isEmpty then assignField out name value else out) = set out value := by
  by_cases empty : value = []
  · rw [empty, unset]
    rfl
  · rw [if_pos (by simpa using empty), assigned, rdropWhile_of_untrailed text.untrailed]

theorem readField_addresses (set : MailHeader → List Address → MailHeader) {out : MailHeader}
    {name : Bytes}
    {list : List Address} (unset : set out [] = out)
    (assigned : ∀ value,
    assignField out name value = set out (parseRfc5322Addresses (value.rdropWhile isWsp)))
    (plain : ∀ address ∈ list, address.Plain) :
    (if !(renderAddresses list).isEmpty then assignField out name (renderAddresses list) else out) =
      set out (parseRfc5322Addresses (renderAddresses list)) := by
  by_cases empty : list = []
  · rw [empty]
    exact unset.symm
  · have value := renderAddresses_value plain empty
    rw [if_pos (by simpa using value.some_byte), assigned, rdropWhile_of_untrailed value.untrailed]

theorem Mail.Sendable.fields_read (sendable : message.Sendable) :
    (writtenFields message).foldl (fun out field => assignField out field.1 field.2) {} =
      { message.header with
        «from» := parseRfc5322Addresses (renderAddresses message.header.from),
        «to» := parseRfc5322Addresses (renderAddresses message.header.to),
        cc := parseRfc5322Addresses (renderAddresses message.header.cc),
        bcc := parseRfc5322Addresses (renderAddresses message.header.bcc) } := by
  have texts := sendable.texts
  have addresses := sendable.addresses
  simp only [List.forall_mem_cons, List.not_mem_nil, false_implies, implies_true,
    and_true] at texts addresses
  obtain ⟨subject, date, messageId, inReplyTo, contentType⟩ := texts
  obtain ⟨sentFrom, sentTo, cc, bcc⟩ := addresses
  rw [writtenFields, List.foldl_filter]
  simp only [mailFields, List.foldl_cons, List.foldl_nil]
  rw [readField_text (fun out text => { out with subject := text }) rfl (fun _ => rfl) subject,
    readField_addresses (fun out list => { out with «from» := list }) rfl (fun _ => rfl) sentFrom,
    readField_addresses (fun out list => { out with «to» := list }) rfl (fun _ => rfl) sentTo,
    readField_addresses (fun out list => { out with cc := list }) rfl (fun _ => rfl) cc,
    readField_addresses (fun out list => { out with bcc := list }) rfl (fun _ => rfl) bcc,
    readField_text (fun out text => { out with date := text }) rfl (fun _ => rfl) date,
    readField_text (fun out text => { out with messageId := text }) rfl (fun _ => rfl) messageId,
    readField_text (fun out text => { out with inReplyTo := text }) rfl (fun _ => rfl) inReplyTo,
    readField_text (fun out _ => out) rfl (fun _ => rfl) contentType]

theorem Mail.Sendable.read_rendered (sendable : message.Sendable) :
    readMail (renderMail message) =
      { header := { message.header with
          «from» := parseRfc5322Addresses (renderAddresses message.header.from),
          «to» := parseRfc5322Addresses (renderAddresses message.header.to),
          cc := parseRfc5322Addresses (renderAddresses message.header.cc),
          bcc := parseRfc5322Addresses (renderAddresses message.header.bcc) },
        body := { data := message.body.data } } := by
  rw [sendable.renderMail_eq, readMail_fields sendable.some_field fun field mem => sendable.written_value mem,
    sendable.fields_read]

end Messages

/-- A mail that is appended and fetched comes back exactly if the display names of all its addresses
    do. -/
theorem append_fetch_iff (messages : List Mail) {r : UntaggedResponse} {message : Mail}
    (sendable : message.Sendable)
    (fetch : r.kind = .fetch)
    (read : parseBodySectionAttribute (ascii "BODY[]") r.payload = some (some (renderMail message))) :
    ∃ returned, FetchMessageCommand.onUntagged messages r = messages ++ [returned] ∧
      (returned.header = message.header ∧ returned.body.data = message.body.data ↔
        ∀ list ∈ [message.header.from, message.header.to, message.header.cc, message.header.bcc],
        AllSurvive list) := by
  have absorbed : absorbMessage messages r = messages ++ [readMail (renderMail message)] := by
    rw [absorbMessage, if_neg (by simp [fetch]), read]
    rfl
  have survive (list : List Address)
    (own : list ∈ [message.header.from, message.header.to, message.header.cc,
      message.header.bcc]) : parseRfc5322Addresses (renderAddresses list) = list ↔ AllSurvive list :=
    parse_rendered_iff (sendable.addresses list own)
  refine ⟨_, absorbed, ?_⟩
  rw [sendable.read_rendered]
  simp only [and_true]
  constructor
  · intro same list own
    rw [← survive list own]
    simp only [List.mem_cons, List.not_mem_nil, or_false] at own
    rcases own with rfl | rfl | rfl | rfl
    · exact congrArg MailHeader.from same
    · exact congrArg MailHeader.to same
    · exact congrArg MailHeader.cc same
    · exact congrArg MailHeader.bcc same
  · intro all
    have back (list : List Address)
      (own : list ∈ [message.header.from, message.header.to, message.header.cc,
        message.header.bcc]) : parseRfc5322Addresses (renderAddresses list) =
        list := (survive list own).mpr (all list own)
    rw [back _ (by simp), back _ (by simp), back _ (by simp), back _ (by simp)]

theorem HeaderText.empty : HeaderText [] := ⟨by simp, by simp, rfl, rfl⟩

theorem sendable_from (displayName : Bytes) (returnless : byte '\r' ∉ displayName)
    (feedless : byte '\n' ∉ displayName)
    (data : Bytes) :
    Mail.Sendable
    { header := { «from» := [{ displayName, mailboxName := ascii "a", hostName := ascii "x" }] },
                    body := { data } } where
  texts := by
    simp only [List.forall_mem_cons, List.not_mem_nil, false_implies, implies_true, and_true]
    exact ⟨.empty, .empty, .empty, .empty, .empty⟩
  addresses := by
    simp only [List.forall_mem_cons, List.not_mem_nil, false_implies, implies_true, and_true]
    exact ⟨rfl, .atom (List.cons_ne_nil _ _) rfl, .atom (List.cons_ne_nil _ _) rfl,
      returnless, feedless⟩
  some_member := fun same => by cases congrArg MailHeader.from same

theorem append_fetch_comma :
    ∃ message returned : Mail, message.Sendable ∧ message.header.from.map Address.displayName = [ascii "Doe, Ann"] ∧
      FetchMessageCommand.onUntagged []
        { kind := .fetch, payload := ascii "(BODY[] \x7b28\x7d\r\nFrom: \"Doe, Ann\" <a@x>\r\n\r\nhi)" } = [returned] ∧
      returned.header = message.header ∧ returned.body.data = message.body.data := by
  have sendable := sendable_from (ascii "Doe, Ann") (by decide) (by decide) (ascii "hi")
  obtain ⟨returned, fetched, back⟩ :=
    append_fetch_iff [] (r := { kind := .fetch, payload := _ }) sendable rfl
    (show parseBodySectionAttribute (ascii "BODY[]")
      (ascii "(BODY[] \x7b28\x7d\r\nFrom: \"Doe, Ann\" <a@x>\r\n\r\nhi)") = _ by decide +kernel)
  refine ⟨_, returned, sendable, rfl, fetched, back.mpr ?_⟩
  simp only [List.forall_mem_cons, List.not_mem_nil, false_implies, implies_true, and_true]
  refine ⟨⟨⟨by decide, fun front back eq => ?_, fun followed => by cases followed⟩, True.intro⟩,
    True.intro, True.intro, True.intro⟩
  have whole : (front ++ byte ',' :: back).count (byte '"') = 0 := by
    rw [← eq]
    rfl
  have none : front.count (byte '"') = 0 := by
    rw [List.count_append] at whole
    omega
  rw [oddQuotes, none]
  rfl

/-- A display name with quotes of its own around a comma comes back as two addresses. -/
theorem append_fetch_quotes :
    ∃ message returned : Mail, message.Sendable ∧
      message.header.from.map Address.displayName = [ascii "\"Doe, Ann\""] ∧
      parseBodySectionAttribute (ascii "BODY[]")
        (ascii "(BODY[] \x7b30\x7d\r\nFrom: \"\"Doe, Ann\"\" <a@x>\r\n\r\nhi)") = some (some (renderMail message)) ∧
      FetchMessageCommand.onUntagged []
        { kind := .fetch, payload := ascii "(BODY[] \x7b30\x7d\r\nFrom: \"\"Doe, Ann\"\" <a@x>\r\n\r\nhi)" } = [returned] ∧
      returned.header.from.length = 2 ∧ returned.header ≠ message.header := by
  have sendable := sendable_from (ascii "\"Doe, Ann\"") (by decide) (by decide) (ascii "hi")
  refine ⟨_, { header := { «from» := [_, _] }, body := { data := ascii "hi" } }, sendable, rfl, by decide +kernel,
    show _ = [({ header := { «from» := [{ mailboxName := ascii "\"\"Doe" }, ⟨ascii "Ann\"\"", [], ascii "a", ascii "x"⟩] },
                 body := { data := ascii "hi" } } : Mail)] by decide +kernel, rfl, by decide⟩

end Bkmail
