import Mathlib.Algebra.Group.Int.Defs
import Bkmail.Wire.Astring

namespace Bkmail.SearchCriteria

/-- `int` arithmetic; the language leaves an overflow undefined. -/
def wrapped (n : Int) : Int := n.bmod (2 ^ 32)

def validLoop (depth : Int) (quoted escaped : Bool) : Bytes → Bool
  | [] => !quoted && depth == 0
  | c :: rest =>
    if c == byte '\r' || c == byte '\n' then false
    else if quoted then
      if escaped then validLoop depth quoted false rest
      else if c == byte '\\' then validLoop depth quoted true rest
      else if c == byte '"' then validLoop depth false escaped rest
      else validLoop depth quoted escaped rest
    else if c == byte '"' then validLoop depth true escaped rest
    else if c == byte '(' then validLoop (wrapped (depth + 1)) quoted escaped rest
    else if c == byte ')' then
      if wrapped (depth - 1) < 0 then false else validLoop (wrapped (depth - 1)) quoted escaped rest
    else validLoop depth quoted escaped rest

def isValid (text : Bytes) : Bool := if text.isEmpty then false else validLoop 0 false false text

/-- What stands between two quotes: a backslash escapes the character behind it. -/
inductive QuotedText : Bytes → Prop where
  | nil : QuotedText []
  | char {c : UInt8} {rest : Bytes} (plain : c ≠ byte '"' ∧ c ≠ byte '\\')
      (tail : QuotedText rest) : QuotedText (c :: rest)
  | escaped (c : UInt8) {rest : Bytes} (tail : QuotedText rest) : QuotedText (byte '\\' :: c :: rest)

/-- Sequences of plain characters, quoted strings and sequences in parentheses. -/
inductive Balanced : Bytes → Prop where
  | nil : Balanced []
  | char {c : UInt8} {rest : Bytes} (plain : c ≠ byte '"' ∧ c ≠ byte '(' ∧ c ≠ byte ')')
      (tail : Balanced rest) :
    Balanced (c :: rest)
  | quoted {content rest : Bytes} (inside : QuotedText content) (tail : Balanced rest) :
    Balanced (byte '"' :: (content ++ byte '"' :: rest))
  | group {inner rest : Bytes} (inside : Balanced inner) (tail : Balanced rest) :
    Balanced (byte '(' :: (inner ++ byte ')' :: rest))

/-- A text that closes the parentheses that are open in front of it. -/
def Closes : Nat → Bytes → Prop
  | 0, text => Balanced text
  | n + 1, text => ∃ inner rest, Balanced inner ∧ Closes n rest ∧ text = inner ++ byte ')' :: rest

theorem wrapped_of_bounds {n : Int} (low : -2 ^ 31 ≤ n) (high : n < 2 ^ 31) : wrapped n = n := by
  rw [wrapped, Int.bmod_def]
  omega

theorem validLoop_oneLine {depth : Int} {quoted escaped : Bool} {text : Bytes}
    (valid : validLoop depth quoted escaped text = true) : OneLine text := by
  induction text generalizing depth quoted escaped with
  | nil => exact .nil
  | cons c rest ih =>
    rw [validLoop] at valid
    split at valid
    · cases valid
    · next inside =>
      refine .cons (by simpa using inside) ?_
      repeat' split at valid
      all_goals first | exact ih valid | cases valid

section Accepted

variable {rest : Bytes}

theorem validLoop_quoted {content : Bytes} (inside : QuotedText content) (line : OneLine content)
    (depth : Int) :
    validLoop depth true false (content ++ byte '"' :: rest) = validLoop depth false false rest := by
  induction inside with
  | nil =>
    rw [List.nil_append, validLoop, if_neg (by decide), if_pos rfl, if_neg Bool.false_ne_true,
      if_neg (by decide), if_pos (by decide)]
  | char plain tail ih =>
    obtain ⟨own, others⟩ := List.forall_mem_cons.mp line
    rw [List.cons_append, validLoop, if_neg (by simp [own]), if_pos rfl, if_neg Bool.false_ne_true,
      if_neg (by simp [plain]), if_neg (by simp [plain]), ih others]
  | escaped c tail ih =>
    obtain ⟨-, behind⟩ := List.forall_mem_cons.mp line
    obtain ⟨own, others⟩ := List.forall_mem_cons.mp behind
    rw [List.cons_append, validLoop, if_neg (by decide), if_pos rfl, if_neg Bool.false_ne_true,
      if_pos (by decide), List.cons_append, validLoop, if_neg (by simp [own]), if_pos rfl,
      if_pos rfl, ih others]

/-- A balanced text leaves the loop as it was. -/
theorem validLoop_balanced {body : Bytes} (balanced : Balanced body) (line : OneLine body) {depth : Int}
    (low : 0 ≤ depth) (high : depth + body.length < 2 ^ 31) :
    validLoop depth false false (body ++ rest) = validLoop depth false false rest := by
  induction balanced generalizing depth rest with
  | nil => rfl
  | char plain tail ih =>
    obtain ⟨own, others⟩ := List.forall_mem_cons.mp line
    rw [List.length_cons] at high
    rw [List.cons_append, validLoop, if_neg (by simp [own]), if_neg Bool.false_ne_true,
      if_neg (by simp [plain]), if_neg (by simp [plain]), if_neg (by simp [plain]),
      ih others low (by omega)]
  | @quoted content behind inside tail ih =>
    obtain ⟨-, others⟩ := List.forall_mem_cons.mp line
    obtain ⟨within, closing⟩ := OneLine.append_iff.mp others
    obtain ⟨-, after⟩ := List.forall_mem_cons.mp closing
    simp only [List.length_cons, List.length_append] at high
    rw [List.cons_append, List.append_assoc, List.cons_append, validLoop, if_neg (by decide),
      if_neg Bool.false_ne_true, if_pos (by decide), validLoop_quoted inside within,
      ih after low (by omega)]
  | @group inner behind inside tail ihInside ihTail =>
    obtain ⟨-, others⟩ := List.forall_mem_cons.mp line
    obtain ⟨within, closing⟩ := OneLine.append_iff.mp others
    obtain ⟨-, after⟩ := List.forall_mem_cons.mp closing
    simp only [List.length_cons, List.length_append] at high
    have up : wrapped (depth + 1) = depth + 1 := wrapped_of_bounds (by omega) (by omega)
    have down :
      wrapped (depth + 1 - 1) = depth := by rw [wrapped_of_bounds (by omega) (by omega)]; omega
    rw [List.cons_append, List.append_assoc, List.cons_append, validLoop, if_neg (by decide),
      if_neg Bool.false_ne_true, if_neg (by decide), if_pos (by decide), up,
      ihInside within (by omega) (by omega), validLoop, if_neg (by decide),
      if_neg Bool.false_ne_true, if_neg (by decide), if_neg (by decide), if_pos (by decide), down,
      if_neg (by omega), ihTail after low (by omega)]

end Accepted

theorem quoted_of_validLoop {depth : Int} {escaped : Bool} {text : Bytes}
    (valid : validLoop depth true escaped text = true) :
    ∃ content rest, QuotedText ((if escaped then [byte '\\'] else []) ++ content) ∧
    text = content ++ byte '"' :: rest ∧ validLoop depth false false rest = true := by
  induction text generalizing escaped with
  | nil => cases valid
  | cons c text ih =>
    rw [validLoop] at valid
    split at valid
    · cases valid
    · rw [if_pos rfl] at valid
      cases escaped with
      | true =>
        obtain ⟨content, rest, quoted, rfl, behind⟩ := ih (if_pos rfl ▸ valid)
        exact ⟨c :: content, rest, .escaped c quoted, rfl, behind⟩
      | false =>
        rw [if_neg Bool.false_ne_true] at valid
        split at valid
        · next backslash =>
          obtain ⟨content, rest, quoted, rfl, behind⟩ := ih valid
          exact ⟨c :: content, rest, beq_iff_eq.mp backslash ▸ quoted, rfl, behind⟩
        · next plain =>
          split at valid
          · next quote => exact ⟨[], text, .nil, by simp [beq_iff_eq.mp quote], valid⟩
          · next other =>
            obtain ⟨content, rest, quoted, rfl, behind⟩ := ih valid
            exact ⟨c :: content, rest, .char ⟨by simpa using other, by simpa using plain⟩ quoted,
              rfl, behind⟩

theorem Closes.prepend (front : Bytes) (keeps : ∀ rest, Balanced rest → Balanced (front ++ rest))
    {n : Nat} {text : Bytes}
    (closes : Closes n text) : Closes n (front ++ text) := by
  cases n with
  | zero => exact keeps text closes
  | succ n =>
    obtain ⟨inner, rest, balanced, behind, rfl⟩ := closes
    exact ⟨front ++ inner, rest, keeps inner balanced, behind, by simp⟩

theorem closes_of_validLoop {n : Nat} {text : Bytes} (short : n + text.length < 2 ^ 31)
    (valid : validLoop n false false text = true) : Closes n text := by
  induction size : text.length using Nat.strongRecOn generalizing n text with
  | _ length ih =>
    subst size
    cases text with
    | nil =>
      have closed : n = 0 := by simpa [validLoop] using valid
      exact closed ▸ .nil
    | cons c text =>
      rw [List.length_cons] at short ih
      rw [validLoop] at valid
      split at valid
      · cases valid
      · rw [if_neg Bool.false_ne_true] at valid
        split at valid
        · next quote =>
          obtain ⟨content, rest, quoted, rfl, behind⟩ := quoted_of_validLoop valid
          rw [List.length_append, List.length_cons] at short ih
          have closes := ih rest.length (by omega) (by omega) behind rfl
          have keeps : ∀ after, Balanced after →
              Balanced (byte '"' :: (content ++ [byte '"']) ++ after) := by
            intro after balanced
            simpa using Balanced.quoted quoted balanced
          simpa [beq_iff_eq.mp quote] using closes.prepend _ keeps
        · next noQuote =>
          split at valid
          · next opening =>
            have up : wrapped ((n : Int) + 1) =
              (n + 1 : Nat) := by rw [wrapped_of_bounds (by omega) (by omega)]; rfl
            rw [up] at valid
            obtain ⟨inner, rest, balanced, behind, rfl⟩ :=
              ih text.length (by omega) (by omega) valid rfl
            have keeps : ∀ after, Balanced after →
                Balanced (byte '(' :: (inner ++ [byte ')']) ++ after) := by
              intro after tail
              simpa using Balanced.group balanced tail
            simpa [beq_iff_eq.mp opening] using behind.prepend _ keeps
          · next noOpening =>
            split at valid
            · next closing =>
              split at valid
              · cases valid
              · next above =>
                rw [wrapped_of_bounds (by omega) (by omega)] at above valid
                obtain ⟨m, rfl⟩ : ∃ m, n = m + 1 := ⟨n - 1, by omega⟩
                have down : ((m + 1 : Nat) : Int) - 1 = (m : Nat) := by omega
                rw [down] at valid
                exact ⟨[], text, .nil,
                  ih text.length (by omega) (by omega) valid rfl, by simp [beq_iff_eq.mp closing]⟩
            · next noClosing =>
              have plain : c ≠ byte '"' ∧ c ≠ byte '(' ∧ c ≠ byte ')' :=
                ⟨by simpa using noQuote, by simpa using noOpening, by simpa using noClosing⟩
              have closes := ih text.length (by omega) (by omega) valid rfl
              exact closes.prepend [c] fun after balanced => .char plain balanced

/-- The loop accepts the balanced texts of one line, and no other. -/
theorem isValid_iff (text : Bytes) (short : text.length < 2 ^ 31) :
    isValid text = true ↔ text ≠ [] ∧ OneLine text ∧ Balanced text := by
  rw [isValid]
  by_cases empty : text = []
  · simp [empty]
  · rw [if_neg (by simpa using empty)]
    constructor
    · intro valid
      exact ⟨empty, validLoop_oneLine valid, closes_of_validLoop (n := 0) (by omega) valid⟩
    · rintro ⟨-, line, balanced⟩
      have passes : validLoop 0 false false (text ++ []) = validLoop 0 false false [] :=
        validLoop_balanced balanced line (Int.le_refl 0) (by omega)
      rw [List.append_nil] at passes
      exact passes

theorem quoted_paren_valid : isValid (ascii "(\")\")") = true := by
  have string : Balanced (byte '"' :: ([byte ')'] ++ byte '"' :: [])) :=
    .quoted (.char (by decide) .nil) .nil
  exact (isValid_iff (ascii "(\")\")") (by decide)).mpr ⟨by decide, by decide, .group string .nil⟩

end Bkmail.SearchCriteria
