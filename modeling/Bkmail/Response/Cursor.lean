import Bkmail.Response.Types

namespace Bkmail.Cursor

/-! A cursor is the unconsumed remainder of the response text. A reader returns what it read
together with the remainder, also when it fails: the position that a failed reader has
reached is visible to its caller. -/

def tryConsume (expected : UInt8) : Bytes → Option Bytes
  | c :: rest => if c == expected then some rest else none
  | [] => none

def skipSpaces (text : Bytes) : Bytes := text.dropWhile (· == byte ' ')

def readUntilAny (stops : Bytes) (text : Bytes) : Bytes × Bytes :=
  (text.takeWhile fun c => !stops.contains c, text.dropWhile fun c => !stops.contains c)

def readAtom (text : Bytes) : Bytes × Bytes :=
  (text.takeWhile isAtomChar, text.dropWhile isAtomChar)

/-- `from_chars` into 64 bits: a digit run that does not fit is an error. -/
def fromChars (digits : Bytes) : Option Nat :=
  if decimalValue digits < 2 ^ 64 then some (decimalValue digits) else none

def readNumber (text : Bytes) : Option Nat × Bytes :=
  let digits := text.takeWhile isDigit
  let rest := text.dropWhile isDigit
  if digits.isEmpty then (none, text) else (fromChars digits, rest)

/-- The part of `read_quoted` behind the opening quote, with the unescaping pass folded in. -/
def readQuotedBody : Bytes → Option Bytes × Bytes
  | [] => (none, [])
  | [c] => if c == byte '"' then (some [], []) else
      if c == byte '\\' then (none, []) else
      if c == byte '\r' || c == byte '\n' then (none, [c]) else (none, [])
  | c :: d :: rest =>
    if c == byte '"' then (some [], d :: rest)
    else if c == byte '\\' then
      if isQuotedSpecial d then
        let (body, after) := readQuotedBody rest
        (body.map (d :: ·), after)
      else (none, d :: rest)
    else if c == byte '\r' || c == byte '\n' then (none, c :: d :: rest)
    else
      let (body, after) := readQuotedBody (d :: rest)
      (body.map (c :: ·), after)

def readQuoted (text : Bytes) : Option Bytes × Bytes :=
  match tryConsume (byte '"') text with
  | none => (none, text)
  | some rest => readQuotedBody rest

def readLiteral (text : Bytes) : Option Bytes × Bytes :=
  let open? := tryConsume (byte '\x7b') ((tryConsume (byte '~') text).getD text)
  match open? with
  | none => (none, text)
  | some marker =>
    let digits := marker.takeWhile isDigit
    let afterDigits := marker.dropWhile isDigit
    if digits.isEmpty then (none, text) else
    match fromChars digits with
    | none => (none, text)
    | some count =>
      match (tryConsume (byte '+') afterDigits).getD afterDigits with
      | brace :: cr :: lf :: rest =>
        if brace == byte '\x7d' && cr == byte '\r' && lf == byte '\n' && count ≤ rest.length then
          (some (rest.take count), rest.drop count)
        else (none, text)
      | _ => (none, text)

def readString (text : Bytes) : Option Bytes × Bytes :=
  match text with
  | c :: _ =>
    if c == byte '"' then readQuoted text
    else if c == byte '\x7b' || c == byte '~' then readLiteral text
    else (none, text)
  | [] => (none, text)

def readAstring (text : Bytes) : Option Bytes × Bytes :=
  match text with
  | c :: _ =>
    if c == byte '"' || c == byte '\x7b' || c == byte '~' then readString text
    else
      let (atom, rest) := readAtom text
      if atom.isEmpty then (none, rest) else (some atom, rest)
  | [] => (none, text)

def readNstring (text : Bytes) : Option (Option Bytes) × Bytes :=
  if asciiIequals (text.take 3) (ascii "NIL") && !(text.drop 3).head?.any isAtomChar
    then (some none, text.drop 3)
  else
    let (value, rest) := readString text
    (value.map some, rest)

end Bkmail.Cursor
