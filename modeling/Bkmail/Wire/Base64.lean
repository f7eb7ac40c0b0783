import Bkmail.Wire.Tags

namespace Bkmail.Base64

/-! The base64 alphabet of RFC 4648 and a decoder: quanta of four characters, padding only in the
last one, no bits left over. -/

def value? (c : UInt8) : Option Nat :=
  if byte 'A' ≤ c && c ≤ byte 'Z' then some (c.toNat - 65)
  else if byte 'a' ≤ c && c ≤ byte 'z' then some (c.toNat - 71)
  else if byte '0' ≤ c && c ≤ byte '9' then some (c.toNat + 4)
  else if c == byte '+' then some 62
  else if c == byte '/' then some 63
  else none

def octets (v w x y : Nat) : Bytes :=
  [UInt8.ofNat (v * 4 + w / 16), UInt8.ofNat (w % 16 * 16 + x / 4), UInt8.ofNat (x % 4 * 64 + y)]

def lastQuantum (a b c d : UInt8) : Option Bytes := do
  let v ← value? a
  let w ← value? b
  if c == byte '=' && d == byte '=' then
    if w % 16 = 0 then some [UInt8.ofNat (v * 4 + w / 16)] else none
  else
    let x ← value? c
    if d == byte '=' then
      if x % 4 = 0 then some [UInt8.ofNat (v * 4 + w / 16), UInt8.ofNat (w % 16 * 16 + x / 4)] else none
    else
      let y ← value? d
      some (octets v w x y)

def quantum (a b c d : UInt8) : Option Bytes := do
  some (octets (← value? a) (← value? b) (← value? c) (← value? d))

def decode : Bytes → Option Bytes
  | [] => some []
  | [a, b, c, d] => lastQuantum a b c d
  | a :: b :: c :: d :: rest => do some ((← quantum a b c d) ++ (← decode rest))
  | _ => none

theorem value?_pad : value? (byte '=') = none := by decide

variable {a b c d : UInt8} {v w x y : Nat}

theorem quantum_of_values (first : value? a = some v) (second : value? b = some w)
    (third : value? c = some x)
    (fourth : value? d = some y) : quantum a b c d = some (octets v w x y) := by
  simp [quantum, first, second, third, fourth]

theorem no_pad (known : value? c = some x) : (c == byte '=') = false := by
  refine beq_eq_false_iff_ne.mpr fun same => ?_
  rw [same, value?_pad] at known
  cases known

theorem lastQuantum_of_values (first : value? a = some v) (second : value? b = some w)
    (third : value? c = some x)
    (fourth : value? d = some y) : lastQuantum a b c d = some (octets v w x y) := by
  simp [lastQuantum, first, second, third, fourth, no_pad third, no_pad fourth]

theorem decode_quantum (first : value? a = some v) (second : value? b = some w)
    (third : value? c = some x)
    (fourth : value? d = some y) {rest decoded : Bytes} (tail : decode rest = some decoded) :
    decode (a :: b :: c :: d :: rest) = some (octets v w x y ++ decoded) := by
  cases rest with
  | nil =>
    cases tail
    rw [decode, lastQuantum_of_values first second third fourth, List.append_nil]
  | cons e rest => simp [decode, quantum_of_values first second third fourth, tail]

theorem decode_one_pad (first : value? a = some v) (second : value? b = some w)
    (third : value? c = some x)
    (even : x % 4 = 0) : decode [a, b, c, byte '='] =
      some [UInt8.ofNat (v * 4 + w / 16), UInt8.ofNat (w % 16 * 16 + x / 4)] := by
  simp [decode, lastQuantum, first, second, third, no_pad third, even]

theorem decode_two_pads (first : value? a = some v) (second : value? b = some w) (even : w % 16 = 0) :
    decode [a, b, byte '=', byte '='] = some [UInt8.ofNat (v * 4 + w / 16)] := by
  simp [decode, lastQuantum, first, second, even]

end Bkmail.Base64
