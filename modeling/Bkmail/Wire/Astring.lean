import Bkmail.Wire.Tags

namespace Bkmail

def Stops (run : UInt8 → Bool) (text : Bytes) : Prop := ∀ c, text.head? = some c → run c = false

theorem Stops.nil (run : UInt8 → Bool) : Stops run [] := by simp [Stops]

theorem Stops.cons {run : UInt8 → Bool} {c : UInt8} (outside : run c = false) (text : Bytes) :
    Stops run (c :: text) := by
  simp [Stops, outside]

theorem takeWhile_stops {run : UInt8 → Bool} {text : Bytes} (stops : Stops run text) :
    text.takeWhile run = [] := by
  cases text with
  | nil => rfl
  | cons c text => simp [stops c rfl]

theorem dropWhile_stops {run : UInt8 → Bool} {text : Bytes} (stops : Stops run text) :
    text.dropWhile run = text := by
  cases text with
  | nil => rfl
  | cons c text => simp [stops c rfl]

theorem takeWhile_run {run : UInt8 → Bool} {word text : Bytes} (all : ∀ c ∈ word, run c = true)
    (stops : Stops run text) : (word ++ text).takeWhile run = word := by
  rw [List.takeWhile_append_of_pos all, takeWhile_stops stops, List.append_nil]

theorem dropWhile_run {run : UInt8 → Bool} {word text : Bytes} (all : ∀ c ∈ word, run c = true)
    (stops : Stops run text) : (word ++ text).dropWhile run = text := by
  rw [List.dropWhile_append_of_pos all, dropWhile_stops stops]

def isAstringChar (c : UInt8) : Bool := isAtomChar c || isRespSpecial c

def isTextChar (c : UInt8) : Bool := isChar c && c != byte '\r' && c != byte '\n'

def OneLine (text : Bytes) : Prop := ∀ c ∈ text, c ≠ byte '\r' ∧ c ≠ byte '\n'

instance (text : Bytes) : Decidable (OneLine text) :=
  List.decidableBAll (fun c => c ≠ byte '\r' ∧ c ≠ byte '\n') text

theorem OneLine.nil : OneLine [] := by simp [OneLine]

theorem OneLine.append_iff {a b : Bytes} : OneLine (a ++ b) ↔ OneLine a ∧ OneLine b :=
  List.forall_mem_append

theorem OneLine.append {a b : Bytes} (left : OneLine a) (right : OneLine b) : OneLine (a ++ b) :=
  append_iff.mpr ⟨left, right⟩

theorem OneLine.cons {c : UInt8} {text : Bytes} (first : c ≠ byte '\r' ∧ c ≠ byte '\n')
    (rest : OneLine text) :
    OneLine (c :: text) :=
  OneLine.append (List.forall_mem_singleton.mpr first) rest

theorem OneLine.of_run {run : UInt8 → Bool}
    (inside : ∀ c, run c = true → c ≠ byte '\r' ∧ c ≠ byte '\n') {text : Bytes}
    (all : ∀ c ∈ text, run c = true) : OneLine text :=
  fun c member => inside c (all c member)

theorem astringChar_inline (c : UInt8) (char : isAstringChar c = true) :
    c ≠ byte '\r' ∧ c ≠ byte '\n' :=
  ⟨ne_of_holds char rfl, ne_of_holds char rfl⟩

theorem textChar_inline (c : UInt8) (char : isTextChar c = true) : c ≠ byte '\r' ∧ c ≠ byte '\n' :=
  ⟨ne_of_holds char rfl, ne_of_holds char rfl⟩

theorem decimal_inline (n : Nat) : OneLine (decimal n) :=
  .of_run (fun _ digit => ⟨ne_of_holds digit rfl, ne_of_holds digit rfl⟩) (decimal_digits n)

namespace Astring

/-! The reader of an astring as RFC 3501 has it, which is what a server applies to an argument:
ASTRING-CHARs, or a quoted string of TEXT-CHARs with the quoted-specials escaped, or a literal. -/

def readQuotedChars : Bytes → Option (Bytes × Bytes)
  | [] => none
  | [c] => if c == byte '"' then some ([], []) else none
  | c :: d :: rest =>
    if c == byte '"' then some ([], d :: rest)
    else if c == byte '\\' then
      if isQuotedSpecial d then (readQuotedChars rest).map fun (v, after) => (d :: v, after) else none
    else if isTextChar c then (readQuotedChars (d :: rest)).map fun (v, after) => (c :: v, after)
    else none

def readLiteral (text : Bytes) : Option (Bytes × Bytes) :=
  let digits := text.takeWhile isDigit
  match text.dropWhile isDigit with
  | brace :: cr :: lf :: octets =>
    let count := decimalValue digits
    if !digits.isEmpty && brace == byte '\x7d' && cr == byte '\r' && lf == byte '\n' && count ≤
      octets.length && (octets.take count).all (· != 0) then
      some (octets.take count, octets.drop count)
    else none
  | _ => none

def literalMarker (plus : Bool) (n : Nat) : Bytes :=
  byte '\x7b' :: (decimal n ++ (if plus then [byte '+'] else []) ++ ascii "\x7d\r\n")

def read : Bytes → Option (Bytes × Bytes)
  | [] => none
  | c :: rest =>
    if c == byte '"' then readQuotedChars rest
    else if c == byte '\x7b' then readLiteral rest
    else if isAstringChar c then some (c :: rest.takeWhile isAstringChar, rest.dropWhile isAstringChar)
    else none

def readArguments : Nat → Bytes → Option (List Bytes × Bytes)
  | 0, text => some ([], text)
  | 1, text => (read text).map fun (v, after) => ([v], after)
  | n + 2, text => do
    let (v, after) ← read text
    match after with
    | c :: rest =>
      if c == byte ' ' then (readArguments (n + 1) rest).map fun (values, after) =>
        (v :: values, after) else none
    | [] => none

theorem atomSafe_astringChar : ∀ c : UInt8, atomSafe [c] = true →
    isAstringChar c = true ∧ isTextChar c = true ∧
    c ≠ byte '"' ∧ c ≠ byte '\x7b' :=
  forall_byte (by decide +kernel)

theorem atomSafe_chars {v : Bytes} (safe : atomSafe v = true) : ∀ c ∈ v, atomSafe [c] = true := by
  intro c member
  rw [atomSafe, Bool.and_eq_true, List.all_eq_true] at safe
  simpa [atomSafe] using safe.2 c member

theorem read_atom {v text : Bytes} (safe : atomSafe v = true) (stops : Stops isAstringChar text) :
    read (v ++ text) = some (v, text) := by
  have all : ∀ c ∈ v, isAstringChar c = true :=
    fun c member => (atomSafe_astringChar c (atomSafe_chars safe c member)).1
  have filled : v ≠ [] := fun empty => by simp [empty, atomSafe] at safe
  obtain ⟨c, rest, rfl⟩ := List.exists_cons_of_ne_nil filled
  obtain ⟨plain, -, noQuote, noBrace⟩ :=
    atomSafe_astringChar c (atomSafe_chars safe c List.mem_cons_self)
  have tail : ∀ c ∈ rest, isAstringChar c = true :=
    fun c member => all c (List.mem_cons_of_mem _ member)
  rw [List.cons_append, read, if_neg (by simpa using noQuote), if_neg (by simpa using noBrace),
    if_pos plain, takeWhile_run tail stops, dropWhile_run tail stops]

def escape (c : UInt8) : Bytes := if c == byte '"' || c == byte '\\' then [byte '\\', c] else [c]

theorem appendQuoted_append (v text : Bytes) :
    appendQuoted v ++ text = byte '"' :: (v.flatMap escape ++ byte '"' :: text) := by
  change byte '"' :: v.flatMap escape ++ [byte '"'] ++ text = _
  simp

/-- A quoted string in which only the quoted-specials are escaped is read back exactly if it holds
    TEXT-CHARs and nothing else. -/
theorem readQuotedChars_escaped (v text : Bytes) :
    readQuotedChars (v.flatMap escape ++ byte '"' :: text) =
      if v.all isTextChar then some (v, text) else none := by
  induction v with
  | nil =>
    rw [if_pos (by simp)]
    cases text <;> rfl
  | cons c v ih =>
    rw [List.flatMap_cons, List.append_assoc]
    generalize behind : v.flatMap escape ++ byte '"' :: text = rest at ih
    by_cases special : isQuotedSpecial c = true
    · have textual : isTextChar c = true := by
        have all : ∀ c : UInt8, isQuotedSpecial c = true → isTextChar c = true :=
          forall_byte (by decide +kernel)
        exact all c special
      have written : escape c = [byte '\\', c] := if_pos (by simpa [isQuotedSpecial] using special)
      rw [written, List.cons_append, List.cons_append, List.nil_append, readQuotedChars,
        if_neg (by decide), if_pos (by decide), if_pos special, ih]
      simp only [List.all_cons, textual, Bool.true_and]
      split <;> rfl
    · have written : escape c = [c] := if_neg (by simpa [isQuotedSpecial] using special)
      have plain : c ≠ byte '"' ∧ c ≠ byte '\\' := by simpa [isQuotedSpecial] using special
      have filled : rest ≠ [] := behind ▸ by simp
      obtain ⟨d, tail, rfl⟩ := List.exists_cons_of_ne_nil filled
      rw [written, List.cons_append, List.nil_append, readQuotedChars, if_neg (by simpa using plain.1),
        if_neg (by simpa using plain.2), ih]
      simp only [List.all_cons]
      by_cases textual : isTextChar c = true
      · simp only [textual, Bool.true_and, if_true]
        split <;> rfl
      · simp [textual]

end Astring
end Bkmail
