import Bkmail.Response.Strings
import Mathlib.Data.List.TakeWhile

namespace Bkmail

open Cursor

/-! How an astring argument is written by the renderers of the wire layer, and what the cursor reads
there. -/

inductive AstringClass where
  | atom | quoted | literal
  deriving DecidableEq, Repr

def classifyAstring (value : Bytes) : AstringClass :=
  if value.isEmpty then .quoted
  else if value.all isAstringChar then .atom
  else if value.all isTextChar then .quoted
  else .literal

def renderQuoted (value : Bytes) : Bytes :=
  byte '"' :: value.flatMap (fun c => if isQuotedSpecial c then [byte '\\', c] else [c]) ++ [byte '"']

def renderAstring (value : Bytes) : Bytes :=
  if classifyAstring value = .atom then value else renderQuoted value

inductive LiteralMode where
  | synchronizing | nonSynchronizing
  deriving DecidableEq, Repr

def renderLiteral (data : Bytes) (mode : LiteralMode) : Bytes :=
  byte '\x7b' :: (decimal data.length ++ (if mode = .nonSynchronizing then [byte '+'] else []) ++
    ascii "\x7d\r\n" ++ data)

/-- What the class of a value prescribes: a literal in one of its modes, or the astring. -/
def Prescribed (value text : Bytes) : Prop :=
  if classifyAstring value = .literal then ∃ mode, text = renderLiteral value mode
    else text = renderAstring value

theorem astringChar_textChar : ∀ c : UInt8, isAstringChar c = true → isTextChar c = true :=
  forall_byte (by decide +kernel)

theorem classify_textual {value : Bytes} (other : classifyAstring value ≠ .literal) :
    ∀ c ∈ value, isTextChar c = true := by
  intro c member
  rw [classifyAstring] at other
  split at other
  · next empty => simp [List.isEmpty_iff.mp empty] at member
  · split at other
    · next all => exact astringChar_textChar c (List.all_eq_true.mp all c member)
    · split at other
      · next all => exact List.all_eq_true.mp all c member
      · exact absurd rfl other

theorem readAstring_quoted {value : Bytes} (textual : ∀ c ∈ value, isTextChar c = true) (rest : Bytes) :
    readAstring (renderQuoted value ++ rest) = (some value, rest) := by
  have read := readQuoted_append (fun c member => textChar_inline c (textual c member)) rest
  exact read

theorem readAstring_literal {data : Bytes} (small : data.length < 2 ^ 64) (mode : LiteralMode)
    (rest : Bytes) :
    readAstring (renderLiteral data mode ++ rest) = (some data, rest) := by
  have layout : renderLiteral data mode ++ rest = byte '\x7b' :: (decimal data.length ++
      ((if mode = .nonSynchronizing then [byte '+'] else []) ++ ascii "\x7d\r\n" ++
      (data ++ rest))) := by
    simp [renderLiteral]
  have stops :
    Stops isDigit ((if mode = .nonSynchronizing then [byte '+'] else []) ++ ascii "\x7d\r\n" ++
      (data ++ rest)) := by
    cases mode <;> exact .cons (by decide) _
  have noTilde (text : Bytes) : tryConsume (byte '~') (byte '\x7b' :: text) = none := rfl
  have digits := decimal_digits data.length
  rw [layout]
  generalize after : (if mode = .nonSynchronizing then [byte '+'] else []) ++ ascii "\x7d\r\n" ++
    (data ++ rest) = text
    at stops
  have closing : (tryConsume (byte '+') text).getD text =
      byte '\x7d' :: byte '\r' :: byte '\n' :: (data ++ rest) := by
    rw [← after]
    cases mode <;> rfl
  change readLiteral (byte '\x7b' :: (decimal data.length ++ text)) = _
  rw [readLiteral]
  simp only [noTilde, Option.getD_none, tryConsume_self, takeWhile_run digits stops,
    dropWhile_run digits stops, closing, fromChars_decimal small]
  rw [if_neg (by simpa using decimal_ne_nil data.length)]
  simp

/-- The cursor takes a bracket for the end of an atom, and a tilde for the start of a literal. -/
theorem readAstring_atom_iff {value : Bytes} (filled : value ≠ [])
    (chars : ∀ c ∈ value, isAstringChar c = true)
    {rest : Bytes} (delimited : ∀ c, rest.head? = some c → c = byte ' ' ∨ c = byte ')') :
    readAstring (value ++ rest) = (some value, rest) ↔
    byte ']' ∉ value ∧ value.head? ≠ some (byte '~') := by
  have special : ∀ c : UInt8, isAstringChar c = true → isAtomChar c = false → c = byte ']' :=
    forall_byte (by decide +kernel)
  have stops : Stops isAtomChar rest := by
    intro c head
    rcases delimited c head with rfl | rfl <;> rfl
  obtain ⟨c, tail, rfl⟩ := List.exists_cons_of_ne_nil filled
  obtain ⟨own, others⟩ := List.forall_mem_cons.mp chars
  by_cases tilde : c = byte '~'
  · subst tilde
    have noBrace : tryConsume (byte '\x7b') (tail ++ rest) = none := by
      apply tryConsume_stops
      intro d head
      rw [List.head?_append] at head
      cases tail with
      | nil => rcases delimited d head with rfl | rfl <;> rfl
      | cons e tail =>
        obtain rfl : e = d := Option.some.inj head
        exact beq_false_of_ne (ne_of_holds (List.forall_mem_cons.mp others).1 rfl)
    have failed : readAstring (byte '~' :: tail ++ rest) = (none, byte '~' :: tail ++ rest) := by
      change readLiteral (byte '~' :: (tail ++ rest)) = _
      rw [readLiteral, tryConsume_self]
      simp only [Option.getD_some, noBrace]
      rfl
    rw [failed]
    simp
  · have plain : c ≠ byte '"' ∧ c ≠ byte '\x7b' := ⟨ne_of_holds own rfl, ne_of_holds own rfl⟩
    have read : readAstring (c :: tail ++ rest) = if (readAtom (c :: tail ++ rest)).1.isEmpty then
        (none, (readAtom (c :: tail ++ rest)).2)
          else (some (readAtom (c :: tail ++ rest)).1, (readAtom (c :: tail ++ rest)).2) := by
      rw [List.cons_append, readAstring, if_neg (by simp [plain, tilde])]
    rw [read]
    constructor
    · intro same
      refine ⟨fun bracket => ?_, by simpa using tilde⟩
      split at same
      · cases same
      · have whole : (c :: tail ++ rest).takeWhile isAtomChar = c :: tail :=
          Option.some.inj (congrArg Prod.fst same)
        have atoms : isAtomChar (byte ']') = true := List.mem_takeWhile_imp (whole.symm ▸ bracket)
        cases atoms
    · rintro ⟨noBracket, -⟩
      have atoms : ∀ d ∈ c :: tail, isAtomChar d = true := by
        intro d member
        by_contra other
        exact noBracket (special d (chars d member) (eq_false_of_ne_true other) ▸ member)
      rw [readAtom_append atoms stops]
      rfl

theorem classify_atom {value : Bytes} : classifyAstring value = .atom ↔
    value ≠ [] ∧ ∀ c ∈ value, isAstringChar c = true := by
  rw [classifyAstring, ← List.all_eq_true]
  split
  · next empty => simp [List.isEmpty_iff.mp empty]
  · next filled =>
    have nonempty : value ≠ [] := by simpa using filled
    split
    · next all => simp [nonempty, all]
    · next some =>
      split <;> simp [some]

/-- Every value is read back from its rendering, unless it is an atom with a bracket in it or a
    tilde in front. -/
theorem astring_round_trip_iff (value : Bytes) (small : value.length < 2 ^ 64) :
    (∀ text, Prescribed value text →
    ∀ rest : Bytes, (∀ c, rest.head? = some c → c = byte ' ' ∨ c = byte ')') →
      readAstring (text ++ rest) = (some value, rest)) ↔
    (classifyAstring value = .atom → byte ']' ∉ value ∧ value.head? ≠ some (byte '~')) := by
  cases sort : classifyAstring value with
  | atom =>
    obtain ⟨filled, chars⟩ := classify_atom.mp sort
    simp only [Prescribed, renderAstring, sort, reduceCtorEq, if_false, if_true, forall_eq,
      true_imp_iff]
    constructor
    · intro reads
      have nothing : ∀ c, ([] : Bytes).head? = some c → c = byte ' ' ∨ c = byte ')' :=
        fun c head => by cases head
      exact (readAstring_atom_iff filled chars nothing).mp (reads [] nothing)
    · intro plain rest delimited
      exact (readAstring_atom_iff filled chars delimited).mpr plain
  | quoted =>
    simp only [Prescribed, renderAstring, sort, reduceCtorEq, if_false, forall_eq,
      false_imp_iff, iff_true]
    intro rest _
    exact readAstring_quoted (classify_textual (by simp [sort])) rest
  | literal =>
    simp only [Prescribed, sort, if_true, reduceCtorEq, false_imp_iff, iff_true]
    rintro text ⟨mode, rfl⟩ rest _
    exact readAstring_literal small mode rest

theorem astring_round_trip_quoted : readAstring (renderAstring (ascii "a b") ++ ascii ") x") =
    (some (ascii "a b"), ascii ") x") :=
  (astring_round_trip_iff (ascii "a b") (by decide)).mpr nofun _ (by rw [Prescribed,
    if_neg (by decide)]) _
    (fun c head => .inr (Option.some.inj head).symm)

/-- The atom is cut off at its bracket. -/
theorem bracket_cut_off :
    classifyAstring (ascii "a]b") = .atom ∧ renderAstring (ascii "a]b") = ascii "a]b" ∧
    readAstring (ascii "a]b" ++ ascii " x") = (some (ascii "a"), ascii "]b x") ∧
    readAstring (ascii "~a" ++ ascii " x") = (none, ascii "~a x") :=
  ⟨by decide +kernel, by decide +kernel, by decide +kernel, by decide +kernel⟩

end Bkmail
