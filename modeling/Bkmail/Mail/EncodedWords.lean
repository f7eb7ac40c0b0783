import Bkmail.Mail.Header
import Bkmail.Command.Oauth
import Bkmail.Wire.Astring

namespace Bkmail.Mime

open Fetch (find isWsp isLwsp)

def mimeBase64Value (c : UInt8) : Int :=
  if byte 'A' ≤ c && c ≤ byte 'Z' then c.toNat - 65
  else if byte 'a' ≤ c && c ≤ byte 'z' then c.toNat - 97 + 26
  else if byte '0' ≤ c && c ≤ byte '9' then c.toNat - 48 + 52
  else if c == byte '+' then 62
  else if c == byte '/' then 63
  else if c == byte '=' then -2
  else -1

def mimeHexValue (c : UInt8) : Int :=
  if byte '0' ≤ c && c ≤ byte '9' then c.toNat - 48
  else if byte 'a' ≤ c && c ≤ byte 'f' then c.toNat - 97 + 10
  else if byte 'A' ≤ c && c ≤ byte 'F' then c.toNat - 65 + 10
  else -1

def decodeGroup (lastGroup : Bool) (a b c d : UInt8) : Option Bytes :=
  let v := mimeBase64Value a
  let w := mimeBase64Value b
  let x := mimeBase64Value c
  let y := mimeBase64Value d
  if v == -1 || w == -1 || x == -1 || y == -1 then none
  else if v < 0 || w < 0 then none
  else if !lastGroup && (x < 0 || y < 0) then none
  else if x == -2 && y != -2 then none
  else
    some (UInt8.ofNat (v.toNat <<< 2 ||| w.toNat >>> 4) ::
      ((if 0 ≤ x then [UInt8.ofNat ((w.toNat &&& 0xF) <<< 4 ||| x.toNat >>> 2)] else []) ++
        if 0 ≤ y then [UInt8.ofNat ((x.toNat &&& 0x3) <<< 6 ||| y.toNat)] else []))

def decodeB : Bytes → Option Bytes
  | [] => some []
  | a :: b :: c :: d :: rest => do some ((← decodeGroup rest.isEmpty a b c d) ++ (← decodeB rest))
  | _ => none

def decodeQ : Bytes → Option Bytes
  | [] => some []
  | c :: rest =>
    if c == byte '_' then (decodeQ rest).map (byte ' ' :: ·)
    else if c == byte '=' then
      match rest with
      | high :: low :: rest =>
        if mimeHexValue high < 0 || mimeHexValue low < 0 then none
        else (decodeQ rest).map
          (UInt8.ofNat ((mimeHexValue high).toNat <<< 4 ||| (mimeHexValue low).toNat) :: ·)
      | _ => none
    else (decodeQ rest).map (c :: ·)

/-- `decode_one_encoded_word`, on the text from the position on: the decoded bytes, and the text
    behind the word. -/
def decodeOneEncodedWord (text : Bytes) : Option (Bytes × Bytes) :=
  if text.take 2 != ascii "=?" then none
  else
    let charset := (text.drop 2).takeWhile (· != byte '?')
    match (text.drop 2).dropWhile (· != byte '?') with
    | _ :: encoding :: question :: encoded =>
      if charset.isEmpty || charset.any isWsp || question != byte '?' then none
      else
        match find (ascii "?=") encoded with
        | none => none
        | some dataEnd =>
          let data := encoded.take dataEnd
          let decoded := if asciiToUpper encoding == byte 'B' then decodeB data
            else if asciiToUpper encoding == byte 'Q' then decodeQ data
            else none
          decoded.map (·, encoded.drop (dataEnd + 2))
    | _ => none

/-- The inner loop: the words behind a word that have nothing but blanks in front of them. Nothing
    is returned if it is still running after `turns` turns. -/
def adjacentWords : Nat → Bytes → Option (Bytes × Bytes)
  | 0, _ => none
  | turns + 1, text =>
    let behind := text.dropWhile isLwsp
    if behind.length == text.length || behind.take 2 != ascii "=?" then some ([], text)
    else
      match decodeOneEncodedWord behind with
      | none => some ([], text)
      | some (decoded, rest) => (adjacentWords turns rest).map fun (more, rest) =>
          (decoded ++ more, rest)

def decodeLoop : Nat → Bytes → Option Bytes
  | _, [] => some []
  | 0, _ :: _ => none
  | turns + 1, c :: text =>
    match decodeOneEncodedWord (c :: text) with
    | none => (decodeLoop turns text).map (c :: ·)
    | some (decoded, rest) => do
      let (more, rest) ← adjacentWords turns rest
      some (decoded ++ more ++ (← decodeLoop turns rest))

def decodeEncodedWords (turns : Nat) (text : Bytes) : Option Bytes := decodeLoop turns text

/-! Encoded-words as RFC 2047 has them, and what a text with such words stands for. -/

def base64Char (v : Fin 64) : UInt8 := (AuthenticateCommand.alphabet[v.val]?).getD 0

/-- The bits that the padding leaves over may be anything. -/
inductive Base64Text where
  | done
  | quantum (v w x y : Fin 64) (rest : Base64Text)
  | onePad (v w x : Fin 64)
  | twoPads (v w : Fin 64)

namespace Base64Text

def text : Base64Text → Bytes
  | done => []
  | quantum v w x y rest => base64Char v :: base64Char w :: base64Char x :: base64Char y :: rest.text
  | onePad v w x => [base64Char v, base64Char w, base64Char x, byte '=']
  | twoPads v w => [base64Char v, base64Char w, byte '=', byte '=']

def octets : Base64Text → Bytes
  | done => []
  | quantum v w x y rest => Base64.octets v w x y ++ rest.octets
  | onePad v w x => [UInt8.ofNat (v * 4 + w / 16), UInt8.ofNat (w % 16 * 16 + x / 4)]
  | twoPads v w => [UInt8.ofNat (v * 4 + w / 16)]

end Base64Text

def hexChar (lower : Bool) (v : Fin 16) : UInt8 :=
  ((ascii (if lower then "0123456789abcdef" else "0123456789ABCDEF"))[v.val]?).getD 0

inductive QItem where
  | plain (c : UInt8) (own : c ≠ byte '?' ∧ c ≠ byte '=' ∧ c ≠ byte '_')
  | space
  | hex (high low : Bool × Fin 16)

namespace QItem

def text : QItem → Bytes
  | plain c _ => [c]
  | space => [byte '_']
  | hex high low => [byte '=', hexChar high.1 high.2, hexChar low.1 low.2]

def octet : QItem → UInt8
  | plain c _ => c
  | space => byte ' '
  | hex high low => UInt8.ofNat (high.2 * 16 + low.2)

end QItem

inductive WordContent where
  | b (lower : Bool) (content : Base64Text)
  | q (lower : Bool) (items : List QItem)

namespace WordContent

def letter : WordContent → UInt8
  | b lower _ => if lower then byte 'b' else byte 'B'
  | q lower _ => if lower then byte 'q' else byte 'Q'

def text : WordContent → Bytes
  | b _ content => content.text
  | q _ items => items.flatMap QItem.text

def octets : WordContent → Bytes
  | b _ content => content.octets
  | q _ items => items.map QItem.octet

end WordContent

structure EncodedWord where
  charset : Bytes
  filled : charset ≠ []
  inside : ∀ c ∈ charset, c ≠ byte '?' ∧ c ≠ byte ' ' ∧ c ≠ byte '\t'
  content : WordContent

def EncodedWord.text (word : EncodedWord) : Bytes :=
  ascii "=?" ++ word.charset ++ byte '?' :: word.content.letter :: byte '?' ::
    (word.content.text ++ ascii "?=")

structure PlainText where
  bytes : Bytes
  plain : ¬ ascii "=?" <:+: bytes

def alternation (piece : PlainText) : List (EncodedWord × PlainText) → Bytes
  | [] => piece.bytes
  | (word, next) :: rest => piece.bytes ++ word.text ++ alternation next rest

def PlainText.between (piece : PlainText) : Bytes := if piece.bytes.all isLwsp then [] else piece.bytes

def decodedBehind (piece : PlainText) : List (EncodedWord × PlainText) → Bytes
  | [] => piece.bytes
  | (word, next) :: rest => piece.between ++ word.content.octets ++ decodedBehind next rest

def decoded (piece : PlainText) : List (EncodedWord × PlainText) → Bytes
  | [] => piece.bytes
  | (word, next) :: rest => piece.bytes ++ word.content.octets ++ decodedBehind next rest

theorem mimeBase64Value_char :
    ∀ v : Fin 64, mimeBase64Value (base64Char v) = v ∧ base64Char v ≠ byte '?' := by
  decide +kernel

theorem mimeHexValue_char : ∀ (lower : Bool) (v : Fin 16), mimeHexValue (hexChar lower v) = v ∧
    hexChar lower v ≠ byte '?' := by
  decide +kernel

theorem sextet_high (v w : Fin 64) : (v : Nat) <<< 2 ||| (w : Nat) >>> 4 = v * 4 + w / 16 := by
  have small := w.isLt
  rw [← Nat.shiftLeft_add_eq_or_of_lt, Nat.shiftLeft_eq, Nat.shiftRight_eq_div_pow]
  rw [Nat.shiftRight_eq_div_pow]
  omega

theorem sextet_middle (w x : Fin 64) :
    ((w : Nat) &&& 0xF) <<< 4 ||| (x : Nat) >>> 2 = w % 16 * 16 + x / 4 := by
  have small := x.isLt
  have mask : (w : Nat) &&& 0xF = w % 16 := Nat.and_two_pow_sub_one_eq_mod w 4
  rw [mask, ← Nat.shiftLeft_add_eq_or_of_lt, Nat.shiftLeft_eq, Nat.shiftRight_eq_div_pow]
  rw [Nat.shiftRight_eq_div_pow]
  omega

theorem sextet_low (x y : Fin 64) : ((x : Nat) &&& 0x3) <<< 6 ||| (y : Nat) = x % 4 * 64 + y := by
  have mask : (x : Nat) &&& 0x3 = x % 4 := Nat.and_two_pow_sub_one_eq_mod x 2
  rw [mask, ← Nat.shiftLeft_add_eq_or_of_lt y.isLt, Nat.shiftLeft_eq]

theorem nibbles (high low : Fin 16) : (high : Nat) <<< 4 ||| (low : Nat) = high * 16 + low := by
  rw [← Nat.shiftLeft_add_eq_or_of_lt low.isLt, Nat.shiftLeft_eq]

theorem decodeB_text (content : Base64Text) : decodeB content.text = some content.octets := by
  have known (v : Fin 64) : mimeBase64Value (base64Char v) = v := (mimeBase64Value_char v).1
  have pad : mimeBase64Value (byte '=') = -2 := rfl
  have natural (v : Fin 64) :
    ((v.val : Int) == -1) = false ∧ ¬ (v.val : Int) < 0 ∧ ((v.val : Int) == -2) = false ∧
      (v.val : Int).toNat = v := by
    refine ⟨?_, ?_, ?_, rfl⟩ <;> simp
  induction content with
  | done => rfl
  | quantum v w x y rest ih =>
    have group :
      decodeGroup rest.text.isEmpty (base64Char v) (base64Char w) (base64Char x) (base64Char y) =
        some (Base64.octets v w x y) := by
      simp [decodeGroup, known, natural, sextet_high, sextet_middle, sextet_low, Base64.octets]
    rw [Base64Text.text, decodeB, group, ih]
    rfl
  | onePad v w x =>
    simp [Base64Text.text, decodeB, decodeGroup, known, pad, natural, sextet_high, sextet_middle,
      Base64Text.octets]
  | twoPads v w =>
    simp [Base64Text.text, decodeB, decodeGroup, known, pad, natural, sextet_high, Base64Text.octets]

theorem decodeQ_char {c : UInt8} (other : c ≠ byte '=') (rest : Bytes) :
    decodeQ (c :: rest) = (decodeQ rest).map ((if c == byte '_' then byte ' ' else c) :: ·) := by
  rw [decodeQ.eq_def]
  simp only
  split
  · rfl
  · rw [if_neg (by simpa using other)]

theorem decodeQ_text (items : List QItem) :
    decodeQ (items.flatMap QItem.text) = some (items.map QItem.octet) := by
  induction items with
  | nil => rfl
  | cons item items ih =>
    rw [List.flatMap_cons, List.map_cons]
    cases item with
    | plain c own =>
      rw [QItem.text, List.singleton_append, decodeQ_char own.2.1, ih, if_neg (by simp [own])]
      rfl
    | space =>
      rw [QItem.text, List.singleton_append, decodeQ_char (by decide), ih]
      rfl
    | hex high low =>
      have first := (mimeHexValue_char high.1 high.2).1
      have second := (mimeHexValue_char low.1 low.2).1
      rw [QItem.text, List.cons_append, List.cons_append, List.cons_append, List.nil_append, decodeQ,
        if_neg (by decide), if_pos (by decide)]
      simp only [first, second, ih]
      rw [if_neg (by simp), Int.toNat_natCast, Int.toNat_natCast, nibbles]
      rfl

theorem content_inside (content : WordContent) : ∀ c ∈ content.text, c ≠ byte '?' := by
  have sextet (v : Fin 64) : base64Char v ≠ byte '?' := (mimeBase64Value_char v).2
  have digit (lower : Bool) (v : Fin 16) : hexChar lower v ≠ byte '?' := (mimeHexValue_char lower v).2
  have pad : byte '=' ≠ byte '?' := by decide
  cases content with
  | b lower content =>
    rw [WordContent.text]
    induction content with
    | done => simp [Base64Text.text]
    | quantum v w x y rest ih => simpa [Base64Text.text, sextet] using ih
    | onePad v w x => simp [Base64Text.text, sextet, pad]
    | twoPads v w => simp [Base64Text.text, sextet, pad]
  | q lower items =>
    intro c member
    obtain ⟨item, -, inside⟩ := List.mem_flatMap.mp member
    cases item with
    | plain d own => exact List.mem_singleton.mp inside ▸ own.1
    | space => exact List.mem_singleton.mp inside ▸ by decide
    | hex high low =>
      simp only [QItem.text, List.mem_cons, List.not_mem_nil, or_false] at inside
      rcases inside with rfl | rfl | rfl
      · exact pad
      · exact digit _ _
      · exact digit _ _

theorem find_end {data : Bytes} (inside : ∀ c ∈ data, c ≠ byte '?') (rest : Bytes) :
    find (ascii "?=") (data ++ ascii "?=" ++ rest) = some data.length := by
  induction data with
  | nil => rfl
  | cons c data ih =>
    obtain ⟨own, others⟩ := List.forall_mem_cons.mp inside
    have no : (ascii "?=").isPrefixOf (c :: (data ++ ascii "?=" ++ rest)) = false := by
      change (byte '?' == c && _) = false
      rw [beq_false_of_ne own.symm, Bool.false_and]
    rw [List.cons_append, List.cons_append, find, no, if_neg Bool.false_ne_true, ih others]
    rfl

/-- A well-formed word is decoded, whatever stands behind it. -/
theorem decodeOne_word (word : EncodedWord) (rest : Bytes) :
    decodeOneEncodedWord (word.text ++ rest) = some (word.content.octets, rest) := by
  have layout : word.text ++ rest =
    byte '=' :: byte '?' :: (word.charset ++ byte '?' :: word.content.letter :: byte '?' ::
      (word.content.text ++ ascii "?=" ++ rest)) := by
    simp [EncodedWord.text, ascii]
  have run : ∀ c ∈ word.charset, (c != byte '?') = true :=
    fun c member => by simpa using (word.inside c member).1
  have stops (tail : Bytes) : Stops (· != byte '?') (byte '?' :: tail) := .cons (by decide) tail
  have noBlank : word.charset.any isWsp = false := by
    rw [List.any_eq_false]
    intro c member
    simp [isWsp, word.inside c member]
  have nonempty : word.charset.isEmpty = false := by simpa using word.filled
  have letter : (if asciiToUpper word.content.letter == byte 'B' then decodeB word.content.text
      else if asciiToUpper word.content.letter == byte 'Q' then decodeQ word.content.text else none) =
        some word.content.octets := by
    have letterB :
      ∀ lower : Bool, asciiToUpper (if lower then byte 'b' else byte 'B') = byte 'B' := by decide
    have letterQ :
      ∀ lower : Bool, asciiToUpper (if lower then byte 'q' else byte 'Q') = byte 'Q' := by decide
    cases word.content with
    | b lower content =>
      have upper : asciiToUpper (WordContent.b lower content).letter = byte 'B' := letterB lower
      rw [upper, if_pos (by decide)]
      exact decodeB_text content
    | q lower items =>
      have upper : asciiToUpper (WordContent.q lower items).letter = byte 'Q' := letterQ lower
      rw [upper, if_neg (by decide), if_pos (by decide)]
      exact decodeQ_text items
  have behind :
      (word.content.text ++ ascii "?=" ++ rest).drop (word.content.text.length + 2) = rest := by
    rw [← List.drop_drop, List.append_assoc, List.drop_left]
    rfl
  have found := find_end (content_inside word.content) rest
  generalize shape : word.content.text ++ ascii "?=" ++ rest = encoded at layout behind found
  have data : encoded.take word.content.text.length = word.content.text := by
    rw [← shape, List.append_assoc, List.take_left]
  rw [layout, decodeOneEncodedWord, if_neg (by simp [ascii])]
  simp only [List.drop_succ_cons, List.drop_zero, takeWhile_run run (stops _),
    dropWhile_run run (stops _), nonempty, noBlank,
    Bool.false_or, found, data, behind]
  rw [if_neg (by simp), letter]
  rfl

theorem decodeOne_plain {text : Bytes} (other : text.take 2 ≠ ascii "=?") :
    decodeOneEncodedWord text = none := by
  rw [decodeOneEncodedWord, if_pos (by simpa using other)]

theorem decodeOne_shorter {text decoded rest : Bytes}
    (read : decodeOneEncodedWord text = some (decoded, rest)) :
    rest.length < text.length := by
  rw [decodeOneEncodedWord] at read
  split at read
  · cases read
  · simp only at read
    split at read
    · next c encoding question encoded shape =>
      split at read
      · cases read
      · split at read
        · cases read
        · obtain ⟨decoded, known, same⟩ := Option.map_eq_some_iff.mp read
          have tail : rest = encoded.drop _ := (congrArg Prod.snd same).symm
          have suffix := (List.dropWhile_suffix (· != byte '?') (l := text.drop 2)).length_le
          rw [shape] at suffix
          simp only [List.length_cons, List.length_drop] at suffix
          rw [tail, List.length_drop]
          omega
    · cases read

theorem adjacentWords_total {turns : Nat} {text : Bytes} (enough : text.length < turns) :
    ∃ decoded rest, adjacentWords turns text = some (decoded, rest) ∧ rest.length ≤ text.length := by
  induction turns generalizing text with
  | zero => omega
  | succ turns ih =>
    rw [adjacentWords]
    simp only
    split
    · exact ⟨[], text, rfl, Nat.le_refl _⟩
    · have shorter := (List.dropWhile_suffix isLwsp (l := text)).length_le
      cases read : decodeOneEncodedWord (text.dropWhile isLwsp) with
      | none => exact ⟨[], text, rfl, Nat.le_refl _⟩
      | some word =>
        have consumed := decodeOne_shorter read
        obtain ⟨more, rest, ran, length⟩ := @ih word.2 (by omega)
        refine ⟨word.1 ++ more, rest, ?_, by omega⟩
        simp only [ran]
        rfl

theorem decodeLoop_total {turns : Nat} {text : Bytes} (enough : text.length < turns) :
    ∃ decoded, decodeLoop turns text = some decoded := by
  induction turns generalizing text with
  | zero => omega
  | succ turns ih =>
    cases text with
    | nil => exact ⟨[], rfl⟩
    | cons c text =>
      rw [List.length_cons] at enough
      rw [decodeLoop]
      cases read : decodeOneEncodedWord (c :: text) with
      | none =>
        obtain ⟨decoded, ran⟩ := @ih text (by omega)
        exact ⟨c :: decoded, by simp only [ran]; rfl⟩
      | some word =>
        have consumed := decodeOne_shorter read
        rw [List.length_cons] at consumed
        obtain ⟨more, rest, words, length⟩ := @adjacentWords_total turns word.2 (by omega)
        obtain ⟨decoded, ran⟩ := @ih rest (by omega)
        exact ⟨word.1 ++ more ++ decoded, by simp [words, ran]⟩

def Opening (rest : Bytes) : Prop := rest = [] ∨ ∃ tail, rest = byte '=' :: byte '?' :: tail

theorem PlainText.tail_other {piece : PlainText} {front text rest : Bytes}
    (shape : piece.bytes = front ++ text)
    (filled : text ≠ []) (opening : Opening rest) : (text ++ rest).take 2 ≠ ascii "=?" := by
  intro start
  obtain ⟨c, text, rfl⟩ := List.exists_cons_of_ne_nil filled
  cases text with
  | nil =>
    rcases opening with rfl | ⟨tail, rfl⟩
    · cases start
    · have second : byte '=' = byte '?' := (List.cons.inj (List.cons.inj start).2).1
      exact absurd second (by decide)
  | cons d text =>
    have same : [c, d] = ascii "=?" := start
    exact piece.plain ⟨front, text, by rw [shape, ← same]; simp⟩

theorem decodeLoop_plain (piece : PlainText) {rest decoded : Bytes} (opening : Opening rest)
    (behind : ∀ turns, rest.length < turns → decodeLoop turns rest = some decoded) (front : Bytes)
    {text : Bytes}
    (shape : piece.bytes = front ++ text) {turns : Nat} (enough : (text ++ rest).length < turns) :
    decodeLoop turns (text ++ rest) = some (text ++ decoded) := by
  induction text generalizing front turns with
  | nil => exact behind turns enough
  | cons c text ih =>
    obtain ⟨turns, rfl⟩ := Nat.exists_eq_succ_of_ne_zero (Nat.ne_zero_of_lt enough)
    have other := piece.tail_other shape (List.cons_ne_nil c text) opening
    rw [List.cons_append] at other enough ⊢
    have tail := ih (front ++ [c]) (by simpa using shape) (Nat.lt_of_succ_lt_succ enough)
    rw [decodeLoop]
    simp only [decodeOne_plain other, tail]
    rfl

theorem lwsp_head {rest : Bytes} (opening : Opening rest) : Stops isLwsp rest := by
  rcases opening with rfl | ⟨tail, rfl⟩
  · exact .nil _
  · exact .cons (by decide) _

theorem blank_iff (piece : PlainText) : piece.bytes.dropWhile isLwsp = [] ↔
    piece.bytes.all isLwsp = true := by
  rw [List.dropWhile_eq_nil_iff, List.all_eq_true]

theorem adjacentWords_stop (piece : PlainText) {rest : Bytes} (opening : Opening rest)
    (stop : rest = [] ∨ piece.bytes.all isLwsp = false ∨ piece.bytes = []) {turns : Nat}
    (enough : (piece.bytes ++ rest).length < turns) :
    adjacentWords turns (piece.bytes ++ rest) = some ([], piece.bytes ++ rest) := by
  obtain ⟨turns, rfl⟩ := Nat.exists_eq_succ_of_ne_zero (Nat.ne_zero_of_lt enough)
  rw [adjacentWords]
  simp only
  rw [if_pos]
  rw [List.dropWhile_append]
  by_cases blank : piece.bytes.dropWhile isLwsp = []
  · rw [blank, dropWhile_stops (lwsp_head opening)]
    rcases stop with rfl | other | empty
    · simp [ascii]
    · rw [(blank_iff piece).mp blank] at other
      cases other
    · simp [empty]
  · have other :=
      piece.tail_other (List.takeWhile_append_dropWhile (p := isLwsp) (l := piece.bytes)).symm
      blank opening
    rw [if_neg (by simpa using blank)]
    simp [other]

/-- A blank piece between two words goes. -/
theorem adjacentWords_blank {piece : PlainText} (blank : piece.bytes.all isLwsp = true)
    (filled : piece.bytes ≠ [])
    (word : EncodedWord) {rest more behind : Bytes}
    (tail : ∀ turns, rest.length < turns → adjacentWords turns rest = some (more, behind)) {turns : Nat}
    (enough : (piece.bytes ++ (word.text ++ rest)).length < turns) :
    adjacentWords turns (piece.bytes ++ (word.text ++ rest)) =
    some (word.content.octets ++ more, behind) := by
  obtain ⟨turns, rfl⟩ := Nat.exists_eq_succ_of_ne_zero (Nat.ne_zero_of_lt enough)
  have start : ∃ more, word.text ++ rest = byte '=' :: byte '?' :: more :=
    ⟨_, by simp [EncodedWord.text, ascii]; rfl⟩
  have positive := List.length_pos_of_ne_nil filled
  have stops : Stops isLwsp (word.text ++ rest) := lwsp_head (.inr start)
  have skipped : (piece.bytes ++ (word.text ++ rest)).dropWhile isLwsp = word.text ++ rest :=
    dropWhile_run (List.all_eq_true.mp blank) stops
  have begins : (word.text ++ rest).take 2 = ascii "=?" := by
    obtain ⟨more, shape⟩ := start
    rw [shape]
    rfl
  have short : rest.length < turns := by
    simp only [List.length_append] at enough
    omega
  rw [adjacentWords]
  simp only [skipped]
  rw [if_neg (by simp [begins]; omega), decodeOne_word]
  simp only [tail turns short]
  rfl

theorem opening_alternation (word : EncodedWord) (rest : Bytes) : Opening (word.text ++ rest) :=
  .inr ⟨_, by simp [EncodedWord.text, ascii]; rfl⟩

def Reads (text decoded : Bytes) : Prop := ∃ more behind left, decoded = more ++ left ∧
  (∀ turns, text.length < turns → adjacentWords turns text = some (more, behind)) ∧
  (∀ turns, text.length < turns → decodeLoop turns behind = some left)

theorem decodeLoop_word (word : EncodedWord) {text decoded : Bytes} (reads : Reads text decoded)
    {turns : Nat}
    (enough : (word.text ++ text).length < turns) :
    decodeLoop turns (word.text ++ text) = some (word.content.octets ++ decoded) := by
  obtain ⟨more, behind, left, rfl, words, rest⟩ := reads
  obtain ⟨turns, rfl⟩ := Nat.exists_eq_succ_of_ne_zero (Nat.ne_zero_of_lt enough)
  obtain ⟨c, tail, shape⟩ : ∃ c tail, word.text ++ text = c :: tail := ⟨_, _, rfl⟩
  have filled : 0 < word.text.length := by simp [EncodedWord.text, ascii]
  rw [List.length_append] at enough
  have read := decodeOne_word word text
  rw [shape] at read ⊢
  rw [decodeLoop]
  simp only [read, words turns (by omega), rest turns (by omega), Option.bind_eq_bind, Option.bind_some]
  rw [List.append_assoc]

theorem reads_kept (piece : PlainText) {rest decoded : Bytes} (opening : Opening rest)
    (kept : rest = [] ∨ piece.bytes.all isLwsp = false ∨ piece.bytes = [])
    (behind : ∀ turns, rest.length < turns → decodeLoop turns rest = some decoded) :
    Reads (piece.bytes ++ rest) (piece.bytes ++ decoded) := by
  refine ⟨[], piece.bytes ++ rest, piece.bytes ++ decoded, rfl, fun turns enough => ?_,
    fun turns enough => ?_⟩
  · exact adjacentWords_stop piece opening kept enough
  · exact decodeLoop_plain piece opening behind [] rfl enough

theorem reads_alternation (words : List (EncodedWord × PlainText)) (piece : PlainText) :
    Reads (alternation piece words) (decodedBehind piece words) ∧
      ∀ turns, (alternation piece words).length < turns →
        decodeLoop turns (alternation piece words) = some (decoded piece words) := by
  induction words generalizing piece with
  | nil =>
    have ended : ∀ turns, ([] : Bytes).length < turns → decodeLoop turns [] = some [] :=
        fun turns _ => by
      cases turns <;> rfl
    have reads := reads_kept piece (.inl rfl) (.inl rfl) ended
    have loop := fun turns (enough : (piece.bytes ++ []).length < turns) =>
      decodeLoop_plain piece (.inl rfl) ended [] rfl enough
    simp only [List.append_nil] at reads loop
    exact ⟨reads, loop⟩
  | cons first rest ih =>
    obtain ⟨word, next⟩ := first
    obtain ⟨reads, -⟩ := ih next
    have behind : ∀ turns, (word.text ++ alternation next rest).length < turns →
        decodeLoop turns (word.text ++ alternation next rest) =
        some (word.content.octets ++ decodedBehind next rest) :=
      fun turns enough => decodeLoop_word word reads enough
    have opening := opening_alternation word (alternation next rest)
    rw [alternation, decodedBehind, decoded, List.append_assoc, List.append_assoc, List.append_assoc]
    refine ⟨?_, fun turns enough => decodeLoop_plain piece opening behind [] rfl enough⟩
    by_cases gone : piece.bytes.all isLwsp = true ∧ piece.bytes ≠ []
    · obtain ⟨blank, filled⟩ := gone
      obtain ⟨more, left, tail, same, words, loop⟩ := reads
      rw [PlainText.between, if_pos blank, same]
      refine ⟨word.content.octets ++ more, left,
        tail, by simp, fun turns enough => ?_, fun turns enough => ?_⟩
      · exact adjacentWords_blank blank filled word words enough
      · apply loop
        simp only [List.length_append] at enough
        omega
    · have kept : piece.bytes.all isLwsp = false ∨ piece.bytes = [] := by
        by_cases blank : piece.bytes.all isLwsp = true
        · exact .inr (Classical.not_not.mp fun filled => gone ⟨blank, filled⟩)
        · exact .inl (eq_false_of_ne_true blank)
      have between : piece.between = piece.bytes := by
        rw [PlainText.between]
        rcases kept with other | empty
        · rw [other, if_neg Bool.false_ne_true]
        · simp [empty]
      rw [between]
      exact reads_kept piece opening (.inr kept) behind

/-- The function returns for every text, and what it makes of words and pieces of plain text is what
    they stand for. -/
theorem decodeEncodedWords_exact :
    (∀ text, ∃ result, decodeEncodedWords (text.length + 1) text = some result) ∧
    ∀ (piece : PlainText) (words : List (EncodedWord × PlainText)),
      decodeEncodedWords ((alternation piece words).length + 1) (alternation piece words) =
      some (decoded piece words) :=
  ⟨fun _ => decodeLoop_total (Nat.lt_succ_self _), fun piece words =>
    (reads_alternation words piece).2 _ (Nat.lt_succ_self _)⟩

/-- What `append_base64` writes is well-formed. -/
theorem appendBase64_text (s : Bytes) :
    ∃ content : Base64Text, content.text = AuthenticateCommand.appendBase64 s ∧ content.octets = s := by
  let cut (n shift : Nat) : Fin 64 := ⟨n / 2 ^ shift % 64, Nat.mod_lt _ (by decide)⟩
  fun_induction AuthenticateCommand.appendBase64 s with
  | case1 a b c rest n ih =>
    obtain ⟨content, text, octets⟩ := ih
    refine ⟨.quantum (cut n 18) (cut n 12) (cut n 6) (cut n 0)
      content, by rw [Base64Text.text, text]; rfl, ?_⟩
    rw [Base64Text.octets, octets, Base64.octets, sextets_first, sextets_second, sextets_third]
    simp
  | case2 a b n =>
    have first := sextets_first a b 0
    have second := sextets_second a b 0
    simp only [UInt8.toNat_zero, Nat.add_zero] at first second
    refine ⟨.onePad (cut n 18) (cut n 12) (cut n 6), rfl, ?_⟩
    rw [Base64Text.octets, first, second]
    simp
  | case3 a n =>
    have first := sextets_first a 0 0
    simp only [UInt8.toNat_zero, Nat.add_zero, Nat.zero_mul] at first
    refine ⟨.twoPads (cut n 18) (cut n 12), rfl, ?_⟩
    rw [Base64Text.octets, first]
    simp
  | case4 => exact ⟨.done, rfl, rfl⟩

def encodedWordB (charset text : Bytes) : Bytes :=
  ascii "=?" ++ charset ++ ascii "?B?" ++ text ++ ascii "?="

/-- The two encoders write the same, and as a word the decoder undoes it. -/
theorem base64_codecs_agree (s charset : Bytes) (filled : charset ≠ [])
    (inside : ∀ c ∈ charset, c ≠ byte '?' ∧ c ≠ byte ' ' ∧ c ≠ byte '\t') :
    base64Encode s = AuthenticateCommand.appendBase64 s ∧
      decodeEncodedWords ((encodedWordB charset (base64Encode s)).length +
      1) (encodedWordB charset (base64Encode s)) =
        some s := by
  obtain ⟨content, text, octets⟩ := appendBase64_text s
  let word : EncodedWord := ⟨charset, filled, inside, .b false content⟩
  let none : PlainText := ⟨[], by decide⟩
  have whole := (reads_alternation [(word, none)] none).2
  have wordText : alternation none [(word, none)] = encodedWordB charset (base64Encode s) := by
    rw [base64Encode_eq, ← text]
    simp [alternation, none, word, EncodedWord.text, WordContent.letter, WordContent.text,
      encodedWordB, ascii]
  have wordOctets : decoded none [(word, none)] = s := by
    simp [decoded, decodedBehind, none, word, WordContent.octets, octets]
  rw [wordText, wordOctets] at whole
  exact ⟨base64Encode_eq s, whole _ (Nat.lt_succ_self _)⟩

theorem base64_codecs_agree_utf8 : base64Encode [0xff] = AuthenticateCommand.appendBase64 [0xff] ∧
    decodeEncodedWords ((encodedWordB (ascii "UTF-8") (base64Encode [0xff])).length + 1)
      (encodedWordB (ascii "UTF-8") (base64Encode [0xff])) = some [0xff] :=
  base64_codecs_agree [0xff] (ascii "UTF-8") (by decide) (fun c member => by
    have letters :=
      List.all_eq_true.mp (rfl : (ascii "UTF-8").all (fun c =>
      c != byte '?' && c != byte ' ' && c != byte '\t') = true)
    simpa [and_assoc] using letters c member)

end Bkmail.Mime
