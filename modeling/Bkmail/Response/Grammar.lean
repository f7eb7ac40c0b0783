import Bkmail.Wire.Tags

namespace Bkmail

structure LineText where
  bytes : Bytes
  inside : ∀ c ∈ bytes, c ≠ byte '\r' ∧ c ≠ byte '\n'

namespace LineText

instance : Append LineText where
  append first second := ⟨first.bytes ++ second.bytes, by
    intro c member
    rcases List.mem_append.mp member with member | member
    · exact first.inside c member
    · exact second.inside c member⟩

def ofString (text : String) (inside : ∀ c ∈ ascii text, c ≠ byte '\r' ∧ c ≠ byte '\n') : LineText :=
  ⟨ascii text, inside⟩

theorem inline {text : String}
    (all : ((ascii text).all fun c => c != byte '\r' && c != byte '\n') = true) :
    ∀ c ∈ ascii text, c ≠ byte '\r' ∧ c ≠ byte '\n' := by
  intro c member
  simpa using List.all_eq_true.mp all c member

theorem digit_inside (c : UInt8) (digit : isDigit c = true) : c ≠ byte '\r' ∧ c ≠ byte '\n' :=
  ⟨ne_of_holds digit rfl, ne_of_holds digit rfl⟩

def ofNat (n : Nat) : LineText :=
  ⟨decimal n, fun c member => digit_inside c (decimal_digits n c member)⟩

def quoted (content : LineText) : LineText := ⟨appendQuoted content.bytes, by
  intro c member
  simp only [appendQuoted, List.mem_append, List.mem_cons, List.mem_flatMap, List.not_mem_nil,
    or_false] at member
  rcases member with (rfl | ⟨d, inside, member⟩) | rfl
  · decide
  · have clean := content.inside d inside
    split at member
    · rcases List.mem_pair.mp member with rfl | rfl
      · decide
      · exact clean
    · exact List.mem_singleton.mp member ▸ clean
  · decide⟩

end LineText

structure Keyword (word : String) where
  text : LineText
  spells : asciiIequals text.bytes (ascii word) = true

def Keyword.spelled (word : String)
    (inside : ((ascii word).all fun c => c != byte '\r' && c != byte '\n') = true) : Keyword word :=
  ⟨.ofString word (LineText.inline inside), beq_self_eq_true _⟩

theorem nil_inline : ((ascii "NIL").all fun c => c != byte '\r' && c != byte '\n') = true := rfl

theorem fetch_inline : ((ascii "FETCH").all fun c => c != byte '\r' && c != byte '\n') = true := rfl

theorem envelope_inline :
    ((ascii "ENVELOPE").all fun c => c != byte '\r' && c != byte '\n') = true := rfl

theorem flags_inline : ((ascii "FLAGS").all fun c => c != byte '\r' && c != byte '\n') = true := rfl

theorem uid_inline : ((ascii "UID").all fun c => c != byte '\r' && c != byte '\n') = true := rfl

theorem body_inline : ((ascii "BODY").all fun c => c != byte '\r' && c != byte '\n') = true := rfl

theorem size_inline :
    ((ascii "RFC822.SIZE").all fun c => c != byte '\r' && c != byte '\n') = true := rfl

structure Atom where
  bytes : Bytes
  nonempty : bytes ≠ []
  chars : ∀ c ∈ bytes, (isAtomChar c || isRespSpecial c) = true

theorem atomChar_inside (c : UInt8) (atom : (isAtomChar c || isRespSpecial c) = true) :
    c ≠ byte '\r' ∧ c ≠ byte '\n' := by
  constructor <;> rintro rfl <;> exact absurd atom (by decide)

def Atom.text (atom : Atom) : LineText :=
  ⟨atom.bytes, fun c member => atomChar_inside c (atom.chars c member)⟩

inductive WireString where
  | quoted (content : LineText)
  | literal (octets : Bytes)

inductive NString where
  | nil (spelling : Keyword "NIL")
  | string (value : WireString)

inductive AString where
  | atom (name : Atom)
  | string (value : WireString)

/-- The layout of a response. A space stands between two members, but a parenthesised list may
    follow its neighbour directly, as the addresses of a list and the parts of a multipart do. -/
inductive Phrase where
  | word (text : LineText)
  | literal (octets : Bytes)
  | unit
  | group (inner : Phrase)
  | spaced (left right : Phrase)
  | adjoined (left inner : Phrase)
  | suffixed (left : Phrase) (text : LineText)

inductive Token where
  | opening | closing | space
  | text (line : LineText)
  | literal (octets : Bytes)

def marker (n : Nat) : Bytes := byte '\x7b' :: (decimal n ++ [byte '\x7d'])

def Token.wire : Token → Bytes
  | .opening => [byte '(']
  | .closing => [byte ')']
  | .space => [byte ' ']
  | .text line => line.bytes
  | .literal octets => marker octets.length ++ crlf ++ octets

def onWire (tokens : List Token) : Bytes := tokens.flatMap Token.wire

namespace Phrase

def tokens : Phrase → List Token
  | word text => [.text text]
  | literal octets => [.literal octets]
  | unit => [.opening, .closing]
  | group inner => .opening :: inner.tokens ++ [.closing]
  | spaced left right => left.tokens ++ .space :: right.tokens
  | adjoined left inner => left.tokens ++ .opening :: inner.tokens ++ [.closing]
  | suffixed left text => left.tokens ++ [.text text]

def sequence : Phrase → List Phrase → Phrase
  | first, [] => first
  | first, next :: rest => spaced first (sequence next rest)

def groups (first : Phrase) (rest : List Phrase) : Phrase := rest.foldl adjoined (group first)

def list : List Phrase → Phrase
  | [] => unit
  | first :: rest => group (sequence first rest)

end Phrase

def WireString.phrase : WireString → Phrase
  | quoted content => .word content.quoted
  | literal octets => .literal octets

def NString.phrase : NString → Phrase
  | nil spelling => .word spelling.text
  | string value => value.phrase

def AString.phrase : AString → Phrase
  | atom name => .word name.text
  | string value => value.phrase

def numberPhrase (n : Nat) : Phrase := .word (.ofNat n)

structure WireAddress where
  name : NString
  adl : NString
  mailbox : NString
  host : NString

def WireAddress.inner (address : WireAddress) : Phrase :=
  .sequence address.name.phrase [address.adl.phrase, address.mailbox.phrase, address.host.phrase]

inductive WireAddressList where
  | nil (spelling : Keyword "NIL")
  | addresses (first : WireAddress) (rest : List WireAddress)

def WireAddressList.phrase : WireAddressList → Phrase
  | nil spelling => .word spelling.text
  | addresses first rest => .group (.groups first.inner (rest.map WireAddress.inner))

structure WireEnvelope where
  date : NString
  subject : NString
  «from» : WireAddressList
  sender : WireAddressList
  replyTo : WireAddressList
  «to» : WireAddressList
  cc : WireAddressList
  bcc : WireAddressList
  inReplyTo : NString
  messageId : NString

def WireEnvelope.phrase (envelope : WireEnvelope) : Phrase :=
  .list [envelope.date.phrase, envelope.subject.phrase, envelope.«from».phrase, envelope.sender.phrase,
    envelope.replyTo.phrase, envelope.«to».phrase, envelope.cc.phrase, envelope.bcc.phrase,
    envelope.inReplyTo.phrase, envelope.messageId.phrase]

inductive WireBodyParams where
  | nil (spelling : Keyword "NIL")
  | params (first : WireString × WireString) (rest : List (WireString × WireString))

def WireBodyParams.phrase : WireBodyParams → Phrase
  | nil spelling => .word spelling.text
  | params first rest =>
      .list ((first :: rest).flatMap fun (name, value) => [name.phrase, value.phrase])

structure WireBodyFields where
  params : WireBodyParams
  id : NString
  description : NString
  encoding : WireString
  octets : Nat

def WireBodyFields.phrases (fields : WireBodyFields) : List Phrase :=
  [fields.params.phrase, fields.id.phrase, fields.description.phrase, fields.encoding.phrase,
    numberPhrase fields.octets]

/-- A datum of the extension tail of a body. The line count of a text part is one as well. -/
inductive WireExtension where
  | nstring (value : NString)
  | number (n : Nat)
  | list (first : WireExtension) (rest : List WireExtension)

mutual

def WireExtension.phrase : WireExtension → Phrase
  | .nstring value => value.phrase
  | .number n => numberPhrase n
  | .list first rest => .list (first.phrase :: WireExtension.phrases rest)

def WireExtension.phrases : List WireExtension → List Phrase
  | [] => []
  | first :: rest => first.phrase :: WireExtension.phrases rest

end

inductive WireBody where
  | basic (mediaType subtype : WireString) (fields : WireBodyFields) (extensions : List WireExtension)
  | message (mediaType subtype : WireString) (fields : WireBodyFields) (envelope : WireEnvelope)
      (body : WireBody)
    (lines : Nat) (extensions : List WireExtension)
  | multipart (first : WireBody) (rest : List WireBody) (subtype : WireString)
      (extensions : List WireExtension)

mutual

def WireBody.inner : WireBody → Phrase
  | .basic mediaType subtype fields extensions =>
    .sequence mediaType.phrase (subtype.phrase :: fields.phrases ++ WireExtension.phrases extensions)
  | .message mediaType subtype fields envelope body lines extensions =>
    .sequence mediaType.phrase (subtype.phrase :: fields.phrases ++
      [envelope.phrase, .group body.inner, numberPhrase lines] ++ WireExtension.phrases extensions)
  | .multipart first rest subtype extensions =>
    .sequence (.groups first.inner (WireBody.inners rest)) (subtype.phrase ::
      WireExtension.phrases extensions)

def WireBody.inners : List WireBody → List Phrase
  | [] => []
  | first :: rest => first.inner :: WireBody.inners rest

end

/-- What stands between the brackets of BODY: a specifier, behind which a list of header fields
    may be named. -/
structure WireSection where
  specifier : LineText
  fields : Option (AString × List AString)

def WireSection.phrases (key : LineText) (spec : WireSection) (origin : LineText) : List Phrase :=
  let front := key ++ .ofString "[" (LineText.inline rfl) ++ spec.specifier
  let back := .ofString "]" (LineText.inline rfl) ++ origin
  match spec.fields with
  | none => [.word (front ++ back)]
  | some (first, rest) => [.word front, .suffixed (.list ((first :: rest).map AString.phrase)) back]

def originText : Option Nat → LineText
  | none => .ofString "" (LineText.inline rfl)
  | some n => .ofString "<" (LineText.inline rfl) ++ .ofNat n ++ .ofString ">" (LineText.inline rfl)

structure WireFlag where
  system : Bool
  name : Atom

def WireFlag.phrase (flag : WireFlag) : Phrase :=
  .word (if flag.system then .ofString "\\" (LineText.inline rfl) ++ flag.name.text else flag.name.text)

inductive FetchItem where
  | flags (key : Keyword "FLAGS") (flags : List WireFlag)
  | envelope (key : Keyword "ENVELOPE") (envelope : WireEnvelope)
  | internalDate (key : Keyword "INTERNALDATE") (date : LineText)
  | rfc822 (key : Keyword "RFC822" ⊕ Keyword "RFC822.HEADER" ⊕ Keyword "RFC822.TEXT") (value : NString)
  | size (key : Keyword "RFC822.SIZE") (octets : Nat)
  | uid (key : Keyword "UID") (uid : Nat)
  | body (key : Keyword "BODY" ⊕ Keyword "BODYSTRUCTURE") (body : WireBody)
  | bodySection (key : Keyword "BODY") (spec : WireSection) (origin : Option Nat) (value : NString)

def FetchItem.phrases : FetchItem → List Phrase
  | flags key members => [.word key.text, .list (members.map WireFlag.phrase)]
  | envelope key value => [.word key.text, value.phrase]
  | internalDate key date => [.word key.text, .word date.quoted]
  | rfc822 key value =>
      [.word (key.elim Keyword.text fun key => key.elim Keyword.text Keyword.text), value.phrase]
  | size key octets => [.word key.text, numberPhrase octets]
  | uid key value => [.word key.text, numberPhrase value]
  | body key value => [.word (key.elim Keyword.text Keyword.text), .group value.inner]
  | bodySection key spec origin value => spec.phrases key.text (originText origin) ++ [value.phrase]

inductive WireDelimiter where
  | nil (spelling : Keyword "NIL")
  | char (c : UInt8) (inside : c ≠ byte '\r' ∧ c ≠ byte '\n')

def WireDelimiter.phrase : WireDelimiter → Phrase
  | nil spelling => .word spelling.text
  | char c inside => .word (LineText.quoted ⟨[c], by simpa using inside⟩)

inductive DataResponse where
  | fetch (key : Keyword "FETCH") (message : Nat) (items : List FetchItem)
  | list (key : Keyword "LIST") (flags : List WireFlag) (delimiter : WireDelimiter) (mailbox : AString)
  | status (key : Keyword "STATUS") (mailbox : AString) (items : List (Atom × Nat))

namespace DataResponse

def phrases : DataResponse → List Phrase
  | fetch key message items =>
      [numberPhrase message, .word key.text, .list (items.flatMap FetchItem.phrases)]
  | list key flags delimiter mailbox =>
    [.word key.text, .list (flags.map WireFlag.phrase), delimiter.phrase, mailbox.phrase]
  | status key mailbox items =>
    [.word key.text, mailbox.phrase,
    .list (items.flatMap fun (item, value) => [.word item.text, numberPhrase value])]

def phrase (response : DataResponse) : Phrase :=
  .sequence (.word (.ofString "*" (LineText.inline rfl))) response.phrases

def tokens (response : DataResponse) : List Token := response.phrase.tokens

def text (response : DataResponse) : Bytes := onWire response.tokens

end DataResponse
end Bkmail
