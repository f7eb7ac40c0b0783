import Bkmail.Command.Progress
import Bkmail.Wire.Base64

namespace Bkmail

open AuthenticateCommand (alphabet sextet appendBase64)

def chunkChar (chunk shift : UInt32) : UInt8 := (alphabet[((chunk >>> shift) &&& 0x3f).toNat]?).getD 0

/-- `detail::base64_encode`, which has `append_base64` over again. -/
def base64Encode : Bytes → Bytes
  | a :: b :: c :: rest =>
    let chunk := a.toUInt32 <<< 16 ||| b.toUInt32 <<< 8 ||| c.toUInt32
    [chunkChar chunk 18, chunkChar chunk 12, chunkChar chunk 6, chunkChar chunk 0] ++ base64Encode rest
  | [a] =>
    let chunk := a.toUInt32 <<< 16
    [chunkChar chunk 18, chunkChar chunk 12, byte '=', byte '=']
  | [a, b] =>
    let chunk := a.toUInt32 <<< 16 ||| b.toUInt32 <<< 8
    [chunkChar chunk 18, chunkChar chunk 12, chunkChar chunk 6, byte '=']
  | [] => []

def oauth2Response (user token : Bytes) : Bytes :=
  ascii "user=" ++ user ++ 0x01 :: ascii "auth=Bearer " ++ token ++ [0x01, 0x01]

def authenticateOauth2 (user token : Bytes) : AuthenticateCommand :=
  { mechanism := ascii "XOAUTH2", response := base64Encode (oauth2Response user token) }

/-- The answer to the challenge: the second segment without its CRLF. -/
def answerLine (c : Segmented) : Option Bytes :=
  (c.segments[1]?).map fun segment => segment.take (segment.length - crlf.length)

theorem alphabet_value : ∀ k : Fin 64, Base64.value? ((alphabet[k.val]?).getD 0) = some k.val := by
  decide +kernel

theorem value?_sextet (n shift : Nat) : Base64.value? (sextet n shift) = some (n / 2 ^ shift % 64) :=
  alphabet_value ⟨n / 2 ^ shift % 64, Nat.mod_lt _ (by decide)⟩

section Triple

variable (a b c : UInt8)

theorem sextets_first : (a.toNat * 2 ^ 16 + b.toNat * 2 ^ 8 + c.toNat) / 2 ^ 18 % 64 * 4 +
    (a.toNat * 2 ^ 16 + b.toNat * 2 ^ 8 + c.toNat) / 2 ^ 12 % 64 / 16 = a.toNat := by
  have := a.toNat_lt
  have := b.toNat_lt
  have := c.toNat_lt
  omega

theorem sextets_second : (a.toNat * 2 ^ 16 + b.toNat * 2 ^ 8 + c.toNat) / 2 ^ 12 % 64 % 16 * 16 +
    (a.toNat * 2 ^ 16 + b.toNat * 2 ^ 8 + c.toNat) / 2 ^ 6 % 64 / 4 = b.toNat := by
  have := b.toNat_lt
  have := c.toNat_lt
  omega

theorem sextets_third : (a.toNat * 2 ^ 16 + b.toNat * 2 ^ 8 + c.toNat) / 2 ^ 6 % 64 % 4 * 64 +
    (a.toNat * 2 ^ 16 + b.toNat * 2 ^ 8 + c.toNat) / 2 ^ 0 % 64 = c.toNat := by
  have := c.toNat_lt
  omega

end Triple

/-- One decoding undoes one encoding. -/
theorem decode_appendBase64 (input : Bytes) : Base64.decode (appendBase64 input) = some input := by
  fun_induction appendBase64 input with
  | case1 a b c rest n ih =>
    rw [List.cons_append, List.cons_append, List.cons_append, List.cons_append, List.nil_append,
      Base64.decode_quantum (value?_sextet _ _) (value?_sextet _ _) (value?_sextet _ _)
      (value?_sextet _ _) ih, Base64.octets, sextets_first, sextets_second, sextets_third]
    simp
  | case2 a b n =>
    have even : n / 2 ^ 6 % 64 % 4 = 0 := by omega
    rw [Base64.decode_one_pad (value?_sextet _ _) (value?_sextet _ _) (value?_sextet _ _) even]
    have first := sextets_first a b 0
    have second := sextets_second a b 0
    simp only [UInt8.toNat_zero, Nat.add_zero] at first second
    rw [first, second]
    simp
  | case3 a n =>
    have even : n / 2 ^ 12 % 64 % 16 = 0 := by omega
    have first := sextets_first a 0 0
    simp only [UInt8.toNat_zero, Nat.add_zero, Nat.zero_mul] at first
    change Base64.decode [_, _, byte '=', byte '='] = _
    rw [Base64.decode_two_pads (value?_sextet _ _) (value?_sextet _ _) even, first]
    simp
  | case4 => rfl

theorem length_appendBase64 (input : Bytes) : 4 * input.length ≤ 3 * (appendBase64 input).length := by
  fun_induction appendBase64 input with
  | case1 a b c rest n ih =>
    simp only [List.length_cons, List.length_append, List.length_nil]
    omega
  | case2 | case3 | case4 => simp [ascii]

/-- Chunks of three octets do not overlap. -/
theorem chunk_toNat (a b c : UInt8) : (a.toUInt32 <<< 16 ||| b.toUInt32 <<< 8 ||| c.toUInt32).toNat =
    a.toNat * 2 ^ 16 + b.toNat * 2 ^ 8 + c.toNat := by
  have := a.toNat_lt
  have := b.toNat_lt
  have := c.toNat_lt
  have high : (a.toUInt32 <<< 16).toNat = a.toNat <<< 16 := by
    rw [UInt32.toNat_shiftLeft, UInt8.toNat_toUInt32, Nat.mod_eq_of_lt]
    · rfl
    · change a.toNat <<< 16 < 2 ^ 32
      rw [Nat.shiftLeft_eq]
      omega
  have middle : (b.toUInt32 <<< 8).toNat = b.toNat <<< 8 := by
    rw [UInt32.toNat_shiftLeft, UInt8.toNat_toUInt32, Nat.mod_eq_of_lt]
    · rfl
    · change b.toNat <<< 8 < 2 ^ 32
      rw [Nat.shiftLeft_eq]
      omega
  have joined : a.toNat <<< 16 ||| b.toNat <<< 8 = (a.toNat * 2 ^ 8 + b.toNat) <<< 8 := by
    rw [← Nat.shiftLeft_add_eq_or_of_lt (by rw [Nat.shiftLeft_eq]; omega), Nat.shiftLeft_eq,
      Nat.shiftLeft_eq, Nat.shiftLeft_eq]
    omega
  rw [UInt32.toNat_or, UInt32.toNat_or, high, middle, UInt8.toNat_toUInt32, joined,
    ← Nat.shiftLeft_add_eq_or_of_lt (by omega), Nat.shiftLeft_eq]
  omega

theorem chunkChar_eq (chunk shift : UInt32) (small : shift.toNat < 32) :
    chunkChar chunk shift = sextet chunk.toNat shift.toNat := by
  have mask : (63 : Nat) = 2 ^ 6 - 1 := rfl
  rw [chunkChar, sextet, UInt32.toNat_and, UInt32.toNat_shiftRight, Nat.mod_eq_of_lt small,
    Nat.shiftRight_eq_div_pow]
  change (alphabet[_ &&& 63]?).getD 0 = _
  rw [mask, Nat.and_two_pow_sub_one_eq_mod]

theorem chunkChars (chunk : UInt32) : chunkChar chunk 18 = sextet chunk.toNat 18 ∧
    chunkChar chunk 12 = sextet chunk.toNat 12 ∧ chunkChar chunk 6 = sextet chunk.toNat 6 ∧
    chunkChar chunk 0 = sextet chunk.toNat 0 :=
  ⟨chunkChar_eq chunk 18 (by decide), chunkChar_eq chunk 12 (by decide),
    chunkChar_eq chunk 6 (by decide), chunkChar_eq chunk 0 (by decide)⟩

theorem base64Encode_eq (input : Bytes) : base64Encode input = appendBase64 input := by
  fun_induction base64Encode input with
  | case1 a b c rest chunk ih =>
    have value : chunk.toNat = a.toNat * 2 ^ 16 + b.toNat * 2 ^ 8 + c.toNat := chunk_toNat a b c
    obtain ⟨first, second, third, fourth⟩ := chunkChars chunk
    rw [first, second, third, fourth, value, ih]
    rfl
  | case2 a chunk =>
    have padded : chunk =
      a.toUInt32 <<< 16 ||| (0 : UInt8).toUInt32 <<< 8 ||| (0 : UInt8).toUInt32 := by simp [chunk]
    have value : chunk.toNat = a.toNat * 2 ^ 16 := by
      rw [padded, chunk_toNat, UInt8.toNat_zero, Nat.zero_mul, Nat.add_zero]
    obtain ⟨first, second, -, -⟩ := chunkChars chunk
    rw [first, second, value]
    rfl
  | case3 a b chunk =>
    have padded :
      chunk = a.toUInt32 <<< 16 ||| b.toUInt32 <<< 8 ||| (0 : UInt8).toUInt32 := by simp [chunk]
    have value : chunk.toNat = a.toNat * 2 ^ 16 + b.toNat * 2 ^ 8 := by
      rw [padded, chunk_toNat, UInt8.toNat_zero, Nat.add_zero]
    obtain ⟨first, second, third, -⟩ := chunkChars chunk
    rw [first, second, third, value]
    rfl
  | case4 => rfl

theorem base64Encode_ne {input : Bytes} (filled : input ≠ []) : base64Encode input ≠ input := by
  intro same
  have longer := length_appendBase64 input
  have positive := List.length_pos_of_ne_nil filled
  have length := congrArg List.length same
  rw [base64Encode_eq] at length
  omega

theorem slice_tail (line more : Bytes) :
    Segmented.slice (line ++ more) (line.length, (line ++ more).length) = more := by
  simp [Segmented.slice]

theorem answerLine_render {c : AuthenticateCommand} (plain : c.saslIr = false)
    (filled : c.response ≠ []) (tag : Tag) :
    answerLine (c.render tag) = some (appendBase64 c.response) := by
  have nonempty : c.response.isEmpty = false := by simpa using filled
  have second : (c.render tag).segments[1]? = some (appendBase64 c.response ++ crlf) := by
    simp only [AuthenticateCommand.render, plain, nonempty, Bool.false_eq_true, if_false,
      Segmented.segments, List.map_cons, List.getElem?_cons_succ, List.getElem?_cons_zero, slice_tail]
  rw [answerLine, second]
  simp

/-- The answer that `authenticate_oauth2` sends has to be decoded twice: one decoding of it is the
    base64 text of the payload, which is never the payload. -/
theorem oauth2_encoded_twice (tag : Tag) (user token : Bytes) :
    (answerLine ((authenticateOauth2 user token).render tag)).bind Base64.decode =
        some (base64Encode (oauth2Response user token)) ∧
      (answerLine ((authenticateOauth2 user token).render tag)).bind Base64.decode ≠
      some (oauth2Response user token) := by
  have payload : oauth2Response user token ≠ [] := by simp [oauth2Response, ascii]
  have filled : (authenticateOauth2 user token).response ≠ [] := by
    have longer := length_appendBase64 (oauth2Response user token)
    have positive := List.length_pos_of_ne_nil payload
    refine List.ne_nil_of_length_pos ?_
    change 0 < (base64Encode (oauth2Response user token)).length
    rw [base64Encode_eq]
    omega
  rw [answerLine_render rfl filled, Option.bind_some, decode_appendBase64]
  exact ⟨rfl, fun same => base64Encode_ne payload (Option.some.inj same)⟩

/-- The payload of user `u` and token `t` as the server decodes it. -/
theorem oauth2_answer_misread :
    (answerLine ((authenticateOauth2 (ascii "u") (ascii "t")).render (ascii "a0001"))).bind
    Base64.decode =
        some (ascii "dXNlcj11AWF1dGg9QmVhcmVyIHQBAQ==") ∧
      (answerLine ((authenticateOauth2 (ascii "u") (ascii "t")).render (ascii "a0001"))).bind
      Base64.decode ≠
        some (oauth2Response (ascii "u") (ascii "t")) := by
  decide +kernel

end Bkmail
