import Bkmail.Response.Brackets
import Bkmail.Response.Plain
import Bkmail.Response.Shallow

namespace Bkmail

open Cursor Bkmail.Fetch

/-- The name of an attribute. It may have sections in brackets. -/
structure AttributeKey where
  bytes : Bytes
  starts : bytes.head?.any isAtomChar = true

inductive SExpression where
  | atom (name : AtomText)
  | flag (name : AtomText)
  | string (value : WireString)
  | list (members : List SExpression)

mutual

def SExpression.phrase : SExpression → Phrase
  | .atom name => .word ⟨name.bytes, fun c member => atomChar_inside c (by simp [name.atoms c member])⟩
  | .flag name => .word ⟨byte '\\' :: name.bytes, by
      refine List.forall_mem_cons.mpr ⟨by decide, fun c member => ?_⟩
      exact atomChar_inside c (by simp [name.atoms c member])⟩
  | .string value => value.phrase
  | .list members => .list (SExpression.phrases members)

def SExpression.phrases : List SExpression → List Phrase
  | [] => []
  | first :: rest => first.phrase :: SExpression.phrases rest

end

/-- An attribute of a FETCH response. The RFC822 attributes are among the others. -/
inductive FetchAttribute where
  | flags (key : Keyword "FLAGS") (flags : List (AtomText ⊕ AtomText))
  | uid (key : Keyword "UID") (uid : Nat)
  | internalDate (key : Keyword "INTERNALDATE") (date : LineText)
  | size (key : Keyword "RFC822.SIZE") (octets : Nat)
  | envelope (key : Keyword "ENVELOPE") (value : WireEnvelope)
  | body (key : Keyword "BODY" ⊕ Keyword "BODYSTRUCTURE") (value : WireBody)
  | bodySection (key : Keyword "BODY") (spec : Bytes) (origin : Option Nat) (value : NString)
  | other (key : AttributeKey) (value : SExpression)

namespace FetchAttribute

def key : FetchAttribute → Bytes
  | flags key _ => key.text.bytes
  | uid key _ => key.text.bytes
  | internalDate key _ => key.text.bytes
  | size key _ => key.text.bytes
  | envelope key _ => key.text.bytes
  | body key _ => (key.elim Keyword.text Keyword.text).bytes
  | bodySection key spec origin _ =>
      key.text.bytes ++ byte '[' :: spec ++ byte ']' :: (originText origin).bytes
  | other key _ => key.bytes

def flag : AtomText ⊕ AtomText → SExpression
  | .inl keyword => .atom keyword
  | .inr name => .flag name

def value : FetchAttribute → Phrase
  | flags _ members => (SExpression.list (members.map flag)).phrase
  | uid _ n => numberPhrase n
  | internalDate _ date => .word date.quoted
  | size _ octets => numberPhrase octets
  | envelope _ value => value.phrase
  | body _ value => .group value.inner
  | bodySection _ _ _ value => value.phrase
  | other _ value => value.phrase

def text (item : FetchAttribute) : Bytes := item.key ++ byte ' ' :: item.value.text

def remaining (items : List FetchAttribute) : Bytes := spaceSeparated (items.map text) ++ [byte ')']

def attrList (items : List FetchAttribute) : Bytes := byte '(' :: remaining items

end FetchAttribute
end Bkmail
