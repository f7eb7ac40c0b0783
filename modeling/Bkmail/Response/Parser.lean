import Bkmail.Response.Cursor

namespace Bkmail.Parser

open Cursor

def classifyStatus (word : Bytes) : Option ResponseStatus :=
  if asciiIequals word (ascii "OK") then some .ok
  else if asciiIequals word (ascii "NO") then some .no
  else if asciiIequals word (ascii "BAD") then some .bad
  else if asciiIequals word (ascii "PREAUTH") then some .preauth
  else if asciiIequals word (ascii "BYE") then some .bye
  else none

def kindFor : ResponseStatus → UntaggedKind
  | .ok => .ok
  | .no => .no
  | .bad => .bad
  | .preauth => .preauth
  | .bye => .bye

def mapFlag (flag : Bytes) (flags : FlagSet) : FlagSet :=
  if asciiIequals flag (ascii "\\Seen") then flags.set .seen
  else if asciiIequals flag (ascii "\\Answered") then flags.set .answered
  else if asciiIequals flag (ascii "\\Flagged") then flags.set .flagged
  else if asciiIequals flag (ascii "\\Deleted") then flags.set .deleted
  else if asciiIequals flag (ascii "\\Draft") then flags.set .draft
  else if asciiIequals flag (ascii "\\Recent") then flags.set .recent
  else flags

def makeUnknown (atom arguments : Bytes) : ResponseCode :=
  .unknown atom ((tryConsume (byte ' ') arguments).getD arguments)

/-- The atom loop of the CAPABILITY code. The fuel bounds the iterations, each of which
    consumes at least the separating space. -/
def readCapabilities : Nat → Bytes → List Bytes
  | 0, _ => []
  | fuel + 1, text =>
    match tryConsume (byte ' ') text with
    | none => []
    | some rest =>
      let (atom, after) := readAtom rest
      if atom.isEmpty then [] else atom :: readCapabilities fuel after

/-- The charset loop of the BADCHARSET code, from behind the opening parenthesis. On failure
    it returns the remainder that the cursor has reached. -/
def readCharsets : Nat → Bytes → List Bytes ⊕ Bytes
  | 0, text => .inr text
  | fuel + 1, text =>
    let text := skipSpaces text
    match tryConsume (byte ')') text with
    | some _ => .inl []
    | none =>
      match readAstring text with
      | (none, after) => .inr after
      | (some charset, after) =>
        match readCharsets fuel after with
        | .inl charsets => .inl (charset :: charsets)
        | .inr failed => .inr failed

def readPermanentFlags : Nat → Bytes → FlagSet → FlagSet ⊕ Bytes
  | 0, text, _ => .inr text
  | fuel + 1, text, flags =>
    let text := skipSpaces text
    match tryConsume (byte ')') text with
    | some _ => .inl flags
    | none =>
      let (flag, after) := readUntilAny (ascii " )") text
      if flag.isEmpty then .inr after else readPermanentFlags fuel after (mapFlag flag flags)

/-- The decoder of UIDNEXT, UIDVALIDITY and UNSEEN: the number is cut to 32 bits, and a number
    beyond 64 bits leaves only what follows its digits to the fallback. -/
def numberCode (atom rest : Bytes) (make : Nat → ResponseCode) : ResponseCode :=
  match tryConsume (byte ' ') rest with
  | none => makeUnknown atom rest
  | some after =>
    match readNumber after with
    | (some n, _) => make (n % 2 ^ 32)
    | (none, failed) => makeUnknown atom failed

def badcharsetCode (atom rest : Bytes) : ResponseCode :=
  match tryConsume (byte ' ') rest with
  | none => .badcharset []
  | some after =>
    match tryConsume (byte '(') after with
    | none => makeUnknown atom after
    | some list =>
      match readCharsets (list.length + 1) list with
      | .inl charsets => .badcharset charsets
      | .inr failed => makeUnknown atom failed

def permanentflagsCode (atom rest : Bytes) : ResponseCode :=
  match tryConsume (byte ' ') rest with
  | none => makeUnknown atom rest
  | some after =>
    match tryConsume (byte '(') after with
    | none => makeUnknown atom after
    | some list =>
      match readPermanentFlags (list.length + 1) list {} with
      | .inl flags => .permanentflags flags
      | .inr failed => makeUnknown atom failed

def parseRespCode (inner : Bytes) : ResponseCode :=
  let (atom, rest) := readAtom inner
  if asciiIequals atom (ascii "ALERT") then .alert
  else if asciiIequals atom (ascii "PARSE") then .parse
  else if asciiIequals atom (ascii "READ-ONLY") then .readOnly
  else if asciiIequals atom (ascii "READ-WRITE") then .readWrite
  else if asciiIequals atom (ascii "TRYCREATE") then .trycreate
  else if asciiIequals atom (ascii "UIDNEXT") then numberCode atom rest .uidnext
  else if asciiIequals atom (ascii "UIDVALIDITY") then numberCode atom rest .uidvalidity
  else if asciiIequals atom (ascii "UNSEEN") then numberCode atom rest .unseen
  else if asciiIequals atom (ascii "CAPABILITY")
    then .capability (readCapabilities (rest.length + 1) rest)
  else if asciiIequals atom (ascii "BADCHARSET") then badcharsetCode atom rest
  else if asciiIequals atom (ascii "PERMANENTFLAGS") then permanentflagsCode atom rest
  else makeUnknown atom rest

def parseRespText (text : Bytes) : Option (Option ResponseCode × Bytes) :=
  match tryConsume (byte ' ') text with
  | none => some (none, [])
  | some rest =>
    match tryConsume (byte '[') rest with
    | none => some (none, rest)
    | some bracket =>
      let (inner, after) := readUntilAny (ascii "]") bracket
      match tryConsume (byte ']') after with
      | none => none
      | some closed => some (some (parseRespCode inner), (tryConsume (byte ' ') closed).getD [])

def parseContinuation (response : Bytes) : ServerResponse :=
  let rest := response.drop 1
  .continuation ⟨(tryConsume (byte ' ') rest).getD rest⟩

def parseTagged (response : Bytes) : Option ServerResponse :=
  let (tag, rest) := readAtom response
  if tag.isEmpty then none else
  match tryConsume (byte ' ') rest with
  | none => none
  | some after =>
    let (word, rest) := readAtom after
    match classifyStatus word with
    | none | some .preauth | some .bye => none
    | some status => (parseRespText rest).map fun (code, text) => .tagged ⟨tag, status, code, text⟩

def numberedKind (word : Bytes) : UntaggedKind :=
  if asciiIequals word (ascii "EXISTS") then .exists
  else if asciiIequals word (ascii "RECENT") then .recent
  else if asciiIequals word (ascii "EXPUNGE") then .expunge
  else if asciiIequals word (ascii "FETCH") then .fetch
  else .unknown

def dataKind (word : Bytes) : UntaggedKind :=
  if asciiIequals word (ascii "CAPABILITY") then .capability
  else if asciiIequals word (ascii "FLAGS") then .flags
  else if asciiIequals word (ascii "LIST") then .list
  else if asciiIequals word (ascii "LSUB") then .lsub
  else if asciiIequals word (ascii "STATUS") then .status
  else if asciiIequals word (ascii "SEARCH") then .search
  else .unknown

def parseNumbered (start : Bytes) : Option ServerResponse :=
  match readNumber start with
  | (none, _) => none
  | (some number, rest) =>
    match tryConsume (byte ' ') rest with
    | none => none
    | some after =>
      let (word, rest) := readAtom after
      let kind := numberedKind word
      let payload := match kind with
        | .fetch => (tryConsume (byte ' ') rest).getD []
        | .unknown => start
        | _ => []
      some (.untagged { kind, number, payload })

def parseUntagged (response : Bytes) : Option ServerResponse :=
  match tryConsume (byte ' ') (response.drop 1) with
  | none => none
  | some start =>
    if start.head?.any isDigit then parseNumbered start
    else
      let (word, rest) := readAtom start
      if word.isEmpty then none else
      match classifyStatus word with
      | some status =>
        (parseRespText rest).map fun (code, text) =>
          .untagged { kind := kindFor status, status, code, text }
      | none =>
        match dataKind word with
        | .unknown => some (.untagged { kind := .unknown, payload := start })
        | kind => some (.untagged { kind, payload := (tryConsume (byte ' ') rest).getD [] })

def parse (response : Bytes) : Option ServerResponse :=
  match response with
  | [] => none
  | c :: _ =>
    if c == byte '+' then some (parseContinuation response)
    else if c == byte '*' then parseUntagged response
    else parseTagged response

end Bkmail.Parser
