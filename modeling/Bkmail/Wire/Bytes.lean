import Mathlib.Algebra.Group.Nat.Defs
import Mathlib.Data.List.Basic

namespace Bkmail

abbrev Bytes := List UInt8

def byte (c : Char) : UInt8 := c.val.toUInt8

def ascii (text : String) : Bytes := text.toList.map byte

def crlf : Bytes := ascii "\r\n"

def isChar (c : UInt8) : Bool := 0x01 ≤ c && c ≤ 0x7f

def isCtl (c : UInt8) : Bool := c ≤ 0x1f || c == 0x7f

def isListWildcard (c : UInt8) : Bool := c == byte '%' || c == byte '*'

def isQuotedSpecial (c : UInt8) : Bool := c == byte '"' || c == byte '\\'

def isRespSpecial (c : UInt8) : Bool := c == byte ']'

def isAtomSpecial (c : UInt8) : Bool :=
  c == byte '(' || c == byte ')' || c == byte '\x7b' || c == byte ' ' || isCtl c ||
    isListWildcard c || isQuotedSpecial c || isRespSpecial c

def isAtomChar (c : UInt8) : Bool := isChar c && !isAtomSpecial c

def isDigit (c : UInt8) : Bool := byte '0' ≤ c && c ≤ byte '9'

def asciiToUpper (c : UInt8) : UInt8 :=
  if byte 'a' ≤ c && c ≤ byte 'z' then c - byte 'a' + byte 'A' else c

def asciiIequals (a b : Bytes) : Bool := a.map asciiToUpper == b.map asciiToUpper

def decimal (n : Nat) : Bytes := (Nat.toDigits 10 n).map byte

def decimalValue (digits : Bytes) : Nat :=
  digits.foldl (fun value digit => 10 * value + (digit.toNat - 48)) 0

/-- The message flags of a `flag_set`, numbered by the shifts that `set` and `test` use. -/
inductive MessageFlag where
  | seen | answered | flagged | deleted | draft | recent
  deriving DecidableEq, Repr

def MessageFlag.bit : MessageFlag → UInt8
  | .seen => 1
  | .answered => 2
  | .flagged => 4
  | .deleted => 8
  | .draft => 16
  | .recent => 32

structure FlagSet where
  bits : UInt8 := 0
  deriving DecidableEq, Repr

def FlagSet.set (flags : FlagSet) (f : MessageFlag) : FlagSet := ⟨flags.bits ||| f.bit⟩

def FlagSet.test (flags : FlagSet) (f : MessageFlag) : Bool := flags.bits &&& f.bit != 0

def FlagSet.any (flags : FlagSet) : Bool := flags.bits != 0

/-- The bare-atom test that LOGIN, APPEND and the mailbox commands each carry a copy of. -/
def atomSafe (v : Bytes) : Bool :=
  !v.isEmpty && v.all fun u =>
    !(u < 0x20 || 0x7f ≤ u) &&
      !(u == byte '(' || u == byte ')' || u == byte '\x7b' || u == byte ' ' || u == byte '%' ||
        u == byte '*' || u == byte '"' || u == byte '\\' || u == byte ']')

def appendQuoted (v : Bytes) : Bytes :=
  byte '"' :: v.flatMap (fun c => if c == byte '"' || c == byte '\\' then [byte '\\', c] else [c]) ++
    [byte '"']

end Bkmail
