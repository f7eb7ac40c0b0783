import Bkmail.Wire.Tags

namespace Bkmail

/-- The wire state that LOGIN, APPEND and AUTHENTICATE share: all segments concatenated in
    `wire`, their bounds in `seg`, and the two counters. What a command was made from is not
    read again after `render`. -/
structure Segmented where
  wire : Bytes := []
  seg : List (Nat × Nat) := []
  emitted : Nat := 0
  unlocked : Nat := 0
  deriving DecidableEq, Repr

namespace Segmented

def slice (wire : Bytes) (bounds : Nat × Nat) : Bytes := (wire.drop bounds.1).take (bounds.2 - bounds.1)

def segments (c : Segmented) : List Bytes := c.seg.map (slice c.wire)

def nextSegment (c : Segmented) : Bytes :=
  if c.emitted ≥ c.unlocked ∨ c.emitted ≥ c.seg.length then []
  else (c.segments[c.emitted]?).getD []

def awaitsContinuation (c : Segmented) : Bool := c.unlocked < c.seg.length

def onSegmentFlushed (c : Segmented) : Segmented :=
  if c.emitted < c.seg.length then { c with emitted := c.emitted + 1 } else c

def onContinuation (c : Segmented) : Segmented :=
  if c.unlocked < c.seg.length then { c with unlocked := c.unlocked + 1 } else c

@[simp] theorem length_segments (c : Segmented) : c.segments.length = c.seg.length := by
  simp [segments]

end Segmented

/-! LOGIN: each argument is an atom, a quoted string, or a literal that closes a segment. -/

structure LoginCommand where
  userName : Bytes
  password : Bytes
  literalPlus : Bool := false
  deriving DecidableEq, Repr

structure LoginCommand.Rendering where
  wire : Bytes
  seg : List (Nat × Nat) := []
  segBegin : Nat := 0
  walls : Nat := 0

namespace LoginCommand

def closeSegment (r : Rendering) : Rendering :=
  { r with
    seg := if r.seg.length < 4 then r.seg ++ [(r.segBegin, r.wire.length)] else r.seg
    segBegin := r.wire.length }

def appendArg (literalPlus : Bool) (v : Bytes) (r : Rendering) : Rendering :=
  if atomSafe v then { r with wire := r.wire ++ v }
  else if !v.any (fun c => c == byte '\r' || c == byte '\n')
    then { r with wire := r.wire ++ appendQuoted v }
  else
    let marker := byte '\x7b' ::
      (decimal v.length ++ (if literalPlus then [byte '+'] else []) ++ ascii "\x7d\r\n")
    let closed := closeSegment { r with wire := r.wire ++ marker }
    { closed with walls := closed.walls + 1, wire := closed.wire ++ v }

def rendering (c : LoginCommand) (tag : Tag) : Rendering :=
  let user := appendArg c.literalPlus c.userName { wire := tag ++ ascii " LOGIN " }
  let password := appendArg c.literalPlus c.password { user with wire := user.wire ++ [byte ' '] }
  closeSegment { password with wire := password.wire ++ crlf }

def render (c : LoginCommand) (tag : Tag) : Segmented :=
  let r := c.rendering tag
  { wire := r.wire, seg := r.seg, emitted := 0
    unlocked := if r.walls = 0 || c.literalPlus then r.seg.length else 1 }

end LoginCommand

/-! APPEND: the line up to the literal marker, and the message with its CRLF. -/

structure AppendCommand where
  mailbox : Bytes
  message : Bytes
  flags : FlagSet := {}
  dateTime : Bytes := []
  literalPlus : Bool := false
  deriving DecidableEq, Repr

namespace AppendCommand

def appendArg (v : Bytes) : Bytes := if atomSafe v then v else appendQuoted v

def flagNames (flags : FlagSet) : List Bytes :=
  [(MessageFlag.answered, "\\Answered"), (.deleted, "\\Deleted"), (.draft, "\\Draft"),
    (.flagged, "\\Flagged"), (.recent, "\\Recent"), (.seen, "\\Seen")].filterMap
      fun (flag, name) => if flags.test flag then some (ascii name) else none

def appendFlags (flags : FlagSet) : Bytes :=
  ascii " (" ++ [byte ' '].intercalate (flagNames flags) ++ ascii ")"

def line (c : AppendCommand) (tag : Tag) : Bytes :=
  tag ++ ascii " APPEND " ++ appendArg c.mailbox ++
    (if c.flags.any then appendFlags c.flags else []) ++
    (if c.dateTime.isEmpty then [] else byte ' ' :: appendQuoted c.dateTime) ++
    (ascii " \x7b" ++ decimal c.message.length ++ (if c.literalPlus then [byte '+'] else []) ++
    ascii "\x7d\r\n")

def render (c : AppendCommand) (tag : Tag) : Segmented :=
  let line := c.line tag
  let wire := line ++ c.message ++ crlf
  { wire, seg := [(0, line.length), (line.length, wire.length)], emitted := 0
    unlocked := if c.literalPlus then 2 else 1 }

end AppendCommand

/-! AUTHENTICATE: the command line, and without SASL-IR the answer to the challenge. -/

structure AuthenticateCommand where
  mechanism : Bytes
  response : Bytes
  saslIr : Bool := false
  deriving DecidableEq, Repr

namespace AuthenticateCommand

def alphabet : Bytes := ascii "ABCDEFGHIJKLMNOPQRSTUVWXYZabcdefghijklmnopqrstuvwxyz0123456789+/"

def sextet (n shift : Nat) : UInt8 := (alphabet[n / 2 ^ shift % 64]?).getD 0

def appendBase64 : Bytes → Bytes
  | a :: b :: c :: rest =>
    let n := a.toNat * 2 ^ 16 + b.toNat * 2 ^ 8 + c.toNat
    [sextet n 18, sextet n 12, sextet n 6, sextet n 0] ++ appendBase64 rest
  | [a, b] =>
    let n := a.toNat * 2 ^ 16 + b.toNat * 2 ^ 8
    [sextet n 18, sextet n 12, sextet n 6, byte '=']
  | [a] =>
    let n := a.toNat * 2 ^ 16
    [sextet n 18, sextet n 12] ++ ascii "=="
  | [] => []

def render (c : AuthenticateCommand) (tag : Tag) : Segmented :=
  let start := tag ++ ascii " AUTHENTICATE " ++ c.mechanism
  if c.saslIr then
    let wire := start ++ byte ' ' ::
      ((if c.response.isEmpty then [byte '='] else appendBase64 c.response) ++ crlf)
    { wire, seg := [(0, wire.length)], unlocked := 1 }
  else
    let line := start ++ crlf
    let wire := line ++ (if c.response.isEmpty then ascii "*\r\n" else appendBase64 c.response ++ crlf)
    { wire, seg := [(0, line.length), (line.length, wire.length)], unlocked := 1 }

/-- Beyond the rendered segments a challenge is answered with the `*` line, as long as the
    four slots of the segment array last. -/
def onContinuation (c : Segmented) : Segmented :=
  if c.unlocked < c.seg.length then { c with unlocked := c.unlocked + 1 }
  else if c.seg.length ≥ 4 then c
  else
    let wire := c.wire ++ ascii "*\r\n"
    { c with wire, seg := c.seg ++ [(c.wire.length, wire.length)], unlocked := c.unlocked + 1 }

end AuthenticateCommand

end Bkmail
