import Bkmail.Response.Grammar
import Bkmail.Response.Parser
import Bkmail.Response.Readers

namespace Bkmail

/-! The shallow grammar of the server's responses: what each alternative looks like on the wire,
and the value that stands for it. -/

structure AtomText where
  bytes : Bytes
  nonempty : bytes ≠ []
  atoms : ∀ c ∈ bytes, isAtomChar c = true

structure OtherWord (names : List String) where
  bytes : Bytes
  atoms : ∀ c ∈ bytes, isAtomChar c = true
  other : ∀ name ∈ names, asciiIequals bytes (ascii name) = false

def spaceSeparated : List Bytes → Bytes
  | [] => []
  | first :: rest => first ++ rest.flatMap (byte ' ' :: ·)

theorem spaceSeparated_read {β : Type} (read : Bytes → β)
    (skips : ∀ text, read (byte ' ' :: text) = read text)
    (words : List Bytes) (rest : Bytes) :
    read (spaceSeparated words ++ rest) = read (words.flatMap (byte ' ' :: ·) ++ rest) := by
  cases words with
  | nil => rfl
  | cons first words => simp [spaceSeparated, skips]

theorem length_le_flatMap {α : Type} (words : List α) (text : α → Bytes) :
    words.length ≤ (words.flatMap (byte ' ' :: text ·)).length := by
  induction words with
  | nil => simp
  | cons first rest ih =>
    simp only [List.flatMap_cons, List.length_append, List.length_cons]
    omega

theorem length_spaceSeparated (words : List Bytes) :
    words.length ≤ (spaceSeparated words).length + 1 := by
  cases words with
  | nil => simp
  | cons first rest =>
    have spaces : rest.length ≤ (rest.flatMap (byte ' ' :: ·)).length := length_le_flatMap rest id
    simp only [spaceSeparated, List.length_append, List.length_cons]
    omega

inductive CharsetText where
  | atom (name : AtomText) (noTilde : name.bytes.head? ≠ some (byte '~'))
  | quoted (content : LineText)

namespace CharsetText

def render : CharsetText → Bytes
  | atom name _ => name.bytes
  | quoted content => appendQuoted content.bytes

def value : CharsetText → Bytes
  | atom name _ => name.bytes
  | quoted content => content.bytes

end CharsetText

def MessageFlag.name : MessageFlag → String
  | .seen => "\\Seen"
  | .answered => "\\Answered"
  | .flagged => "\\Flagged"
  | .deleted => "\\Deleted"
  | .draft => "\\Draft"
  | .recent => "\\Recent"

inductive FlagText where
  | system (flag : MessageFlag) (name : Keyword flag.name)
  | other (text : Bytes) (nonempty : text ≠ []) (inside : ∀ c ∈ text, c ∉ ascii " )")
    (unknown : ∀ flag : MessageFlag, asciiIequals text (ascii flag.name) = false)

namespace FlagText

def render : FlagText → Bytes
  | system _ name => name.text.bytes
  | other text _ _ _ => text

/-- Keywords and extension flags are dropped. -/
def apply (flags : FlagSet) : FlagText → FlagSet
  | system flag _ => flags.set flag
  | other _ _ _ _ => flags

end FlagText

def codeNames : List String :=
  ["ALERT", "PARSE", "READ-ONLY", "READ-WRITE", "TRYCREATE", "UIDNEXT", "UIDVALIDITY", "UNSEEN",
    "CAPABILITY", "BADCHARSET", "PERMANENTFLAGS"]

/-- The inside of a code bracket. The arguments of an unknown code follow its atom behind a space
    or directly. -/
inductive CodeText where
  | alert (name : Keyword "ALERT")
  | parse (name : Keyword "PARSE")
  | readOnly (name : Keyword "READ-ONLY")
  | readWrite (name : Keyword "READ-WRITE")
  | trycreate (name : Keyword "TRYCREATE")
  | uidnext (name : Keyword "UIDNEXT") (n : Nat) (fits : n < 2 ^ 32)
  | uidvalidity (name : Keyword "UIDVALIDITY") (n : Nat) (fits : n < 2 ^ 32)
  | unseen (name : Keyword "UNSEEN") (n : Nat) (fits : n < 2 ^ 32)
  | capability (name : Keyword "CAPABILITY") (capabilities : List AtomText)
  | badcharset (name : Keyword "BADCHARSET") (charsets : Option (List CharsetText))
  | permanentflags (name : Keyword "PERMANENTFLAGS") (flags : List FlagText)
  | unknown (atom : OtherWord codeNames) (arguments : Bytes)
  | unknownGlued (atom : OtherWord codeNames) (arguments : Bytes) (stops : Stops isAtomChar arguments)
    (noSpace : Stops (· == byte ' ') arguments)

namespace CodeText

def render : CodeText → Bytes
  | alert name | parse name | readOnly name | readWrite name | trycreate name => name.text.bytes
  | uidnext name n _ | uidvalidity name n _ | unseen name n _ =>
      name.text.bytes ++ byte ' ' :: decimal n
  | capability name capabilities => name.text.bytes ++ capabilities.flatMap (byte ' ' :: ·.bytes)
  | badcharset name none => name.text.bytes
  | badcharset name (some charsets) =>
    name.text.bytes ++ ascii " (" ++ spaceSeparated (charsets.map CharsetText.render) ++ [byte ')']
  | permanentflags name flags =>
    name.text.bytes ++ ascii " (" ++ spaceSeparated (flags.map FlagText.render) ++ [byte ')']
  | unknown atom arguments => atom.bytes ++ byte ' ' :: arguments
  | unknownGlued atom arguments _ _ => atom.bytes ++ arguments

def value : CodeText → ResponseCode
  | alert _ => .alert
  | parse _ => .parse
  | readOnly _ => .readOnly
  | readWrite _ => .readWrite
  | trycreate _ => .trycreate
  | uidnext _ n _ => .uidnext n
  | uidvalidity _ n _ => .uidvalidity n
  | unseen _ n _ => .unseen n
  | capability _ capabilities => .capability (capabilities.map AtomText.bytes)
  | badcharset _ charsets => .badcharset ((charsets.getD []).map CharsetText.value)
  | permanentflags _ flags => .permanentflags (flags.foldl FlagText.apply {})
  | unknown atom arguments => .unknown atom.bytes arguments
  | unknownGlued atom arguments _ _ => .unknown atom.bytes arguments

end CodeText

inductive StatusText where
  | plain (text : Bytes) (noBracket : text.head? ≠ some (byte '['))
  | coded (code : CodeText) (closed : byte ']' ∉ code.render) (text : Bytes)

namespace StatusText

def render : StatusText → Bytes
  | plain text _ => text
  | coded code _ text => byte '[' :: code.render ++ ascii "] " ++ text

def code : StatusText → Option ResponseCode
  | plain _ _ => none
  | coded code _ _ => some code.value

def text : StatusText → Bytes
  | plain text _ => text
  | coded _ _ text => text

end StatusText

def ResponseStatus.name : ResponseStatus → String
  | .ok => "OK"
  | .no => "NO"
  | .bad => "BAD"
  | .preauth => "PREAUTH"
  | .bye => "BYE"

inductive StatusLine where
  | tagged (tag : AtomText) (noPlus : tag.bytes.head? ≠ some (byte '+')) (status : ResponseStatus)
    (completion : status = .ok ∨ status = .no ∨ status = .bad) (word : Keyword status.name)
  | untagged (status : ResponseStatus) (word : Keyword status.name)

namespace StatusLine

def render : StatusLine → Bytes → Bytes
  | tagged tag _ _ _ word, text => tag.bytes ++ byte ' ' :: word.text.bytes ++ byte ' ' :: text
  | untagged _ word, text => ascii "* " ++ word.text.bytes ++ byte ' ' :: text

def value : StatusLine → Option ResponseCode → Bytes → ServerResponse
  | tagged tag _ status _ _, code, text => .tagged ⟨tag.bytes, status, code, text⟩
  | untagged status _, code, text => .untagged { kind := Parser.kindFor status, status, code, text }

end StatusLine

inductive NumberedKeyword where
  | exists | recent | expunge

def NumberedKeyword.name : NumberedKeyword → String
  | .exists => "EXISTS"
  | .recent => "RECENT"
  | .expunge => "EXPUNGE"

def NumberedKeyword.kind : NumberedKeyword → UntaggedKind
  | .exists => .exists
  | .recent => .recent
  | .expunge => .expunge

inductive DataKeyword where
  | capability | flags | list | lsub | status | search

def DataKeyword.name : DataKeyword → String
  | .capability => "CAPABILITY"
  | .flags => "FLAGS"
  | .list => "LIST"
  | .lsub => "LSUB"
  | .status => "STATUS"
  | .search => "SEARCH"

def DataKeyword.kind : DataKeyword → UntaggedKind
  | .capability => .capability
  | .flags => .flags
  | .list => .list
  | .lsub => .lsub
  | .status => .status
  | .search => .search

def numberedNames : List String := ["EXISTS", "RECENT", "EXPUNGE", "FETCH"]

def untaggedNames : List String :=
  ["OK", "NO", "BAD", "PREAUTH", "BYE", "CAPABILITY", "FLAGS", "LIST", "LSUB", "STATUS", "SEARCH"]

inductive ShallowResponse where
  | continuation (text : Bytes)
  | status (line : StatusLine) (text : StatusText)
  | numbered (number : Nat) (fits : number < 2 ^ 64) (keyword : NumberedKeyword)
      (word : Keyword keyword.name)
  | fetch (number : Nat) (fits : number < 2 ^ 64) (word : Keyword "FETCH") (payload : Bytes)
  | data (keyword : DataKeyword) (word : Keyword keyword.name) (payload : Option Bytes)
  | unknown (word : OtherWord untaggedNames) (nonempty : word.bytes ≠ [])
      (noDigit : Stops isDigit word.bytes)
    (rest : Bytes) (stops : Stops isAtomChar rest)
  | unknownNumbered (number : Nat) (fits : number < 2 ^ 64) (word : OtherWord numberedNames)
      (rest : Bytes)
    (stops : Stops isAtomChar rest)

namespace ShallowResponse

def render : ShallowResponse → Bytes
  | continuation text => ascii "+ " ++ text
  | status line text => line.render text.render
  | numbered number _ _ word => ascii "* " ++ decimal number ++ byte ' ' :: word.text.bytes
  | fetch number _ word payload =>
      ascii "* " ++ decimal number ++ byte ' ' :: word.text.bytes ++ byte ' ' :: payload
  | data _ word none => ascii "* " ++ word.text.bytes
  | data _ word (some payload) => ascii "* " ++ word.text.bytes ++ byte ' ' :: payload
  | unknown word _ _ rest _ => ascii "* " ++ word.bytes ++ rest
  | unknownNumbered number _ word rest _ =>
      ascii "* " ++ decimal number ++ byte ' ' :: word.bytes ++ rest

def value : ShallowResponse → ServerResponse
  | continuation text => .continuation ⟨text⟩
  | status line text => line.value text.code text.text
  | numbered number _ keyword _ => .untagged { kind := keyword.kind, number }
  | fetch number _ _ payload => .untagged { kind := .fetch, number, payload }
  | data keyword _ payload => .untagged { kind := keyword.kind, payload := payload.getD [] }
  | unknown word _ _ rest _ => .untagged { kind := .unknown, payload := word.bytes ++ rest }
  | unknownNumbered number _ word rest _ =>
    .untagged { kind := .unknown, number, payload := decimal number ++ byte ' ' :: word.bytes ++ rest }

end ShallowResponse
end Bkmail
