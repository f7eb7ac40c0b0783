import Bkmail.Response.Parser

namespace Bkmail

structure Address where
  displayName : Bytes := []
  adl : Bytes := []
  mailboxName : Bytes := []
  hostName : Bytes := []
  deriving DecidableEq, Repr

structure Envelope where
  date : Bytes := []
  subject : Bytes := []
  «from» : List Address := []
  sender : List Address := []
  replyTo : List Address := []
  «to» : List Address := []
  cc : List Address := []
  bcc : List Address := []
  inReplyTo : Bytes := []
  messageId : Bytes := []
  deriving DecidableEq, Repr

structure BodyStructure where
  mediaType : Bytes := []
  subtype : Bytes := []
  parameters : List (Bytes × Bytes) := []
  id : Bytes := []
  description : Bytes := []
  encoding : Bytes := []
  octets : Nat := 0
  parts : List BodyStructure := []

structure BodySection where
  specifier : Bytes
  data : Bytes := []
  deriving DecidableEq, Repr

@[ext]
structure MessageAttributes where
  flags : FlagSet := {}
  internalDate : Bytes := []
  rfc822Size : Nat := 0
  envelope : Option Envelope := none
  bodyStructure : Option BodyStructure := none
  sections : List BodySection := []
  uid : Nat := 0

namespace Fetch

open Cursor

/-! The deep parsers of FETCH payloads. Where one fails, so does everything around it, and its
callers drop what it has filled in by then: a parser returns its value and the text behind it, or
nothing. -/

def consumeNil (text : Bytes) : Option Bytes :=
  if asciiIequals (text.take 3) (ascii "NIL") && !(text.drop 3).head?.any isAtomChar
    then some (text.drop 3) else none

def succeeded {α : Type} : Option α × Bytes → Option (α × Bytes)
  | (some value, rest) => some (value, rest)
  | (none, _) => none

def readNstr (member text : Bytes) : Option (Bytes × Bytes) :=
  (succeeded (readNstring text)).map fun (value, rest) => (value.getD member, rest)

mutual

def skipValueIn : Nat → Bytes → Option Bytes
  | 0, _ | _, [] => none
  | fuel + 1, c :: rest =>
    if c == byte '(' then skipMembersIn fuel rest
    else if c == byte '"' then (succeeded (readQuoted (c :: rest))).map Prod.snd
    else if c == byte '\x7b' || c == byte '~' then (succeeded (readLiteral (c :: rest))).map Prod.snd
    else
      let (atom, rest) := readAtom (c :: rest)
      if atom.isEmpty then none else some rest

def skipMembersIn : Nat → Bytes → Option Bytes
  | 0, _ => none
  | fuel + 1, text =>
    let text := skipSpaces text
    match tryConsume (byte ')') text with
    | some rest => some rest
    | none => if text.isEmpty then none else (skipValueIn fuel text).bind (skipMembersIn fuel)

end

def skipValue (text : Bytes) : Option Bytes := skipValueIn (2 * text.length + 1) text

def skipMembers (text : Bytes) : Option Bytes := skipMembersIn (2 * text.length + 2) text

def readFlags : Nat → Bytes → FlagSet → Option (FlagSet × Bytes)
  | 0, _, _ => none
  | fuel + 1, text, out =>
    let text := skipSpaces text
    match tryConsume (byte ')') text with
    | some rest => some (out, rest)
    | none =>
      let (name, rest) := readUntilAny (ascii " ()") text
      if name.isEmpty then none else readFlags fuel rest (Parser.mapFlag name out)

def parseFlagList (text : Bytes) (out : FlagSet) : Option (FlagSet × Bytes) :=
  (tryConsume (byte '(') text).bind fun text => readFlags (text.length + 1) text out

def readAddress (text : Bytes) : Option (Address × Bytes) := do
  let (displayName, text) ← readNstr [] text
  let (adl, text) ← readNstr [] (skipSpaces text)
  let (mailboxName, text) ← readNstr [] (skipSpaces text)
  let (hostName, text) ← readNstr [] (skipSpaces text)
  let rest ← tryConsume (byte ')') text
  some ({ displayName, adl, mailboxName, hostName }, rest)

def readAddresses : Nat → Bytes → Option (List Address × Bytes)
  | 0, _ => none
  | fuel + 1, text =>
    let text := skipSpaces text
    match tryConsume (byte ')') text with
    | some rest => some ([], rest)
    | none => do
      let (address, text) ← readAddress (← tryConsume (byte '(') text)
      let (addresses, rest) ← readAddresses fuel text
      some (address :: addresses, rest)

def parseAddressList (out : List Address) (text : Bytes) : Option (List Address × Bytes) :=
  match consumeNil text with
  | some rest => some (out, rest)
  | none => (tryConsume (byte '(') text).bind fun text =>
    (readAddresses (text.length + 1) text).map fun (addresses, rest) => (out ++ addresses, rest)

/-- `parse_envelope`, into an envelope that may be filled already. -/
def parseEnvelopeInto (out : Envelope) (text : Bytes) : Option (Envelope × Bytes) := do
  let text ← tryConsume (byte '(') text
  let (date, text) ← readNstr out.date text
  let (subject, text) ← readNstr out.subject (skipSpaces text)
  let (sentFrom, text) ← parseAddressList out.from (skipSpaces text)
  let (sender, text) ← parseAddressList out.sender (skipSpaces text)
  let (replyTo, text) ← parseAddressList out.replyTo (skipSpaces text)
  let (sentTo, text) ← parseAddressList out.to (skipSpaces text)
  let (cc, text) ← parseAddressList out.cc (skipSpaces text)
  let (bcc, text) ← parseAddressList out.bcc (skipSpaces text)
  let (inReplyTo, text) ← readNstr out.inReplyTo (skipSpaces text)
  let (messageId, text) ← readNstr out.messageId (skipSpaces text)
  let rest ← tryConsume (byte ')') text
  some ({ date, subject, «from» := sentFrom, sender, replyTo, «to» := sentTo, cc, bcc, inReplyTo, messageId }, rest)

def parseEnvelope (text : Bytes) : Option (Envelope × Bytes) := parseEnvelopeInto {} text

section Body

/-! `stale` is what a view of the cursor's scratch buffer shows after the next `read_quoted` has
unescaped into it, by the bytes it was made of and those that were written there. The language
leaves that open, and so does the model. -/

variable (stale : Bytes → Bytes → Bytes)

def throughScratch (text value rest : Bytes) : Bool :=
  text.head? == some (byte '"') && text.length != rest.length + value.length + 2

def readParams : Nat → Bytes → Option (List (Bytes × Bytes) × Bytes)
  | 0, _ => none
  | fuel + 1, text =>
    let text := skipSpaces text
    match tryConsume (byte ')') text with
    | some rest => some ([], rest)
    | none => do
      let (name, afterName) ← succeeded (readAstring text)
      let valueText := skipSpaces afterName
      let (value, rest) ← succeeded (readAstring valueText)
      let name := if throughScratch text name afterName && throughScratch valueText value rest
        then stale name value
        else name
      let (params, rest) ← readParams fuel rest
      some ((name, value) :: params, rest)

def parseBodyParams (text : Bytes) : Option (List (Bytes × Bytes) × Bytes) :=
  match consumeNil text with
  | some rest => some ([], rest)
  | none => (tryConsume (byte '(') text).bind fun text => readParams stale (text.length + 1) text

def skipTail : Nat → Bytes → Option Bytes
  | 0, _ => none
  | fuel + 1, text =>
    if text.isEmpty || text.head? == some (byte ')') then tryConsume (byte ')') text
    else (skipValue text).bind fun rest => skipTail fuel (skipSpaces rest)

def readParts (child : Bytes → Option (BodyStructure × Bytes)) : Nat → Bytes →
    Option (List BodyStructure × Bytes)
  | 0, _ => none
  | fuel + 1, text =>
    if text.head? == some (byte '(') then do
      let (part, text) ← child text
      let (parts, rest) ← readParts child fuel (skipSpaces text)
      some (part :: parts, rest)
    else some ([], text)

def readBasic (text : Bytes) : Option (BodyStructure × Bytes) := do
  let (mediaType, text) ← succeeded (readAstring text)
  let (subtype, text) ← succeeded (readAstring (skipSpaces text))
  let (parameters, text) ← parseBodyParams stale (skipSpaces text)
  let (id, text) ← readNstr [] (skipSpaces text)
  let (description, text) ← readNstr [] (skipSpaces text)
  let (encoding, text) ← succeeded (readAstring (skipSpaces text))
  let (octets, text) ← succeeded (readNumber (skipSpaces text))
  let rest ← skipTail (text.length + 1) (skipSpaces text)
  some ({ mediaType, subtype, parameters, id, description, encoding, octets }, rest)

def kMaxBodyStructureDepth : Nat := 32

/-- `parse_body_structure`, with the calls that the depth bound still allows in place of the
    depth. -/
def parseBodyStructureIn : Nat → Bytes → Option (BodyStructure × Bytes)
  | 0, _ => none
  | calls + 1, text => do
    let text := skipSpaces (← tryConsume (byte '(') text)
    if text.head? == some (byte '(') then
      let (parts, text) ← readParts (parseBodyStructureIn calls) (text.length + 1) text
      let (subtype, text) ← succeeded (readAstring text)
      let rest ← skipTail (text.length + 1) (skipSpaces text)
      some ({ mediaType := ascii "multipart", subtype, parts }, rest)
    else readBasic stale text

def parseBodyStructure (text : Bytes) : Option (BodyStructure × Bytes) :=
  parseBodyStructureIn stale (kMaxBodyStructureDepth + 1) text

end Body

/-- The brackets open behind a byte of a key. The counter has 32 bits. -/
def bracketsAfter (brackets : Nat) (c : UInt8) : Nat :=
  let opened := if c == byte '[' then (brackets + 1) % 2 ^ 32 else brackets
  if c == byte ']' && 0 < opened then opened - 1 else opened

/-- The key loop, with the brackets open so far: a key ends at a space or a closing parenthesis
    outside of them. -/
def readKey : Nat → Bytes → Bytes × Bytes
  | _, [] => ([], [])
  | brackets, c :: rest =>
    if (c == byte ' ' || c == byte ')') && bracketsAfter brackets c == 0 then ([], c :: rest)
    else
      let (key, after) := readKey (bracketsAfter brackets c) rest
      (c :: key, after)

/-- The loop of `walk_fetch_attributes`. A sink takes what is accumulated so far, the key and the
    text at the value, and returns the text behind the value. -/
def walkAttributes {σ : Type} (sink : σ → Bytes → Bytes → Option (σ × Bytes)) : Nat → σ →
    Bytes → Option σ
  | 0, _, _ => none
  | fuel + 1, out, text =>
    let text := skipSpaces text
    if text.head? == some (byte ')') then some out
    else if text.isEmpty then none
    else
      let (key, text) := readKey 0 text
      if key.isEmpty then none
      else (sink out key (skipSpaces text)).bind fun (out, rest) => walkAttributes sink fuel out rest

def walkFetchAttributes {σ : Type} (sink : σ → Bytes → Bytes → Option (σ × Bytes)) (out : σ)
    (attrList : Bytes) :
    Option σ :=
  (tryConsume (byte '(') attrList).bind fun text => walkAttributes sink (text.length + 1) out text

/-- The sink of `parse_envelope_attribute`: the envelope, once one was found. A second one is read
    into the same envelope. -/
def envelopeSink (out : Option Envelope) (key text : Bytes) : Option (Option Envelope × Bytes) :=
  if asciiIequals key (ascii "ENVELOPE") then
    (parseEnvelopeInto (out.getD {}) text).map fun (envelope, rest) => (some envelope, rest)
  else (skipValue text).map (out, ·)

def parseEnvelopeAttribute (attrList : Bytes) : Option Envelope :=
  (walkFetchAttributes envelopeSink none attrList).join

def startsWith (sectionPrefix key : Bytes) : Bool :=
  sectionPrefix.length ≤ key.length && asciiIequals (key.take sectionPrefix.length) sectionPrefix

/-- The sink of `parse_body_section_attribute`: whether the section was found, and its value. -/
def sectionSink (sectionPrefix : Bytes) (out : Bool × Option Bytes) (key text : Bytes) :
    Option ((Bool × Option Bytes) × Bytes) :=
  if startsWith sectionPrefix key then
    (succeeded (readNstring text)).map fun (value, rest) => ((true, value.or out.2), rest)
  else (skipValue text).map (out, ·)

def parseBodySectionAttribute (sectionPrefix attrList : Bytes) : Option (Option Bytes) :=
  (walkFetchAttributes (sectionSink sectionPrefix) (false, none) attrList).bind fun (found, value) =>
    if found then some value else none

def attributesSink (stale : Bytes → Bytes → Bytes) (out : MessageAttributes) (key text : Bytes) :
    Option (MessageAttributes × Bytes) :=
  if 6 < key.length && asciiIequals (key.take 5) (ascii "BODY[") && key.getLast? == some (byte ']') then
    (succeeded (readNstring text)).map fun (value, rest) =>
      ({ out with sections := out.sections ++ [⟨(key.drop 5).dropLast, value.getD []⟩] }, rest)
  else if asciiIequals key (ascii "FLAGS") then
    (parseFlagList text out.flags).map fun (flags, rest) => ({ out with flags }, rest)
  else if asciiIequals key (ascii "UID") then
    (succeeded (readNumber text)).map fun (uid, rest) => ({ out with uid := uid % 2 ^ 32 }, rest)
  else if asciiIequals key (ascii "INTERNALDATE") then
    (succeeded (readAstring text)).map fun (internalDate, rest) => ({ out with internalDate }, rest)
  else if asciiIequals key (ascii "RFC822.SIZE") then
    (succeeded (readNumber text)).map fun (rfc822Size, rest) => ({ out with rfc822Size }, rest)
  else if asciiIequals key (ascii "ENVELOPE") then
    (parseEnvelope text).map fun (envelope, rest) => ({ out with envelope := some envelope }, rest)
  else if asciiIequals key (ascii "BODYSTRUCTURE") then
    (parseBodyStructure stale text).map fun (body, rest) =>
    ({ out with bodyStructure := some body }, rest)
  else (skipValue text).map (out, ·)

def parseFetchAttributes (stale : Bytes → Bytes → Bytes) (attrList : Bytes) :
    Option MessageAttributes :=
  walkFetchAttributes (attributesSink stale) {} attrList

end Fetch
end Bkmail
