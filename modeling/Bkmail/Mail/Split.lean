import Bkmail.Mail.Header
import Mathlib.Data.List.Infix

namespace Bkmail
namespace Fetch

def lineFeed : UInt8 := byte '\n'

def lastByte (previous : UInt8) (text : Bytes) : UInt8 := text.getLast?.getD previous

/-- A text in three: what is in front of a line terminator, the terminator, what is behind it. -/
structure LineCut where
  before : Bytes
  terminator : Bytes
  behind : Bytes
  deriving DecidableEq

/-- The cut at the terminator of the first empty line, by the byte in front of the text. -/
def firstEmptyLine : UInt8 → Bytes → Option LineCut
  | _, [] => none
  | previous, c :: rest =>
    if previous == lineFeed && c == lineFeed then some ⟨[], [c], rest⟩
    else if previous == lineFeed && c == byte '\r' && rest.head? ==
      some lineFeed then some ⟨[], crlf, rest.drop 1⟩
    else (firstEmptyLine c rest).map fun cut => { cut with before := c :: cut.before }

def messageParts (text : Bytes) : List Bytes × Bytes :=
  match firstEmptyLine lineFeed text with
  | some cut => (headerLines cut.before, cut.behind)
  | none => (headerLines text, [])

/-- The empty line and the line before it both end in `CRLF`; or the empty line ends in `LF` alone,
    is not the first line, and nothing behind it looks like the former. -/
def LineCut.Seen (cut : LineCut) : Prop :=
  (cut.terminator = crlf ∧ ∃ text, cut.before = text ++ crlf ∧ text.getLast? ≠ some (byte '\r')) ∨
    (cut.terminator = [lineFeed] ∧ cut.before ≠ [] ∧ ¬ ascii "\r\n\r\n" <:+: cut.behind)

section Lines

theorem lastByte_cons (previous c : UInt8) (text : Bytes) :
    lastByte previous (c :: text) = lastByte c text := by
  simp [lastByte, List.getLast?_cons]

theorem lastByte_append (previous : UInt8) (front back : Bytes) :
    lastByte previous (front ++ back) = lastByte (lastByte previous front) back := by
  induction front generalizing previous with
  | nil => rfl
  | cons c front ih => rw [List.cons_append, lastByte_cons, lastByte_cons, ih]

theorem rawLines_ne_nil (c : UInt8) (text : Bytes) : rawLines (c :: text) ≠ [] := by
  rw [rawLines]
  split
  · simp
  · split <;> simp

theorem rawLines_append {front : Bytes} (back : Bytes) (whole : lastByte lineFeed front = lineFeed) :
    rawLines (front ++ back) = rawLines front ++ rawLines back := by
  induction front with
  | nil => rfl
  | cons c front ih =>
    rw [lastByte_cons] at whole
    simp only [List.cons_append, rawLines]
    by_cases fed : c = byte '\n'
    · rw [fed] at whole ⊢
      simp [ih whole]
    · cases front with
      | nil => exact absurd whole fed
      | cons d front =>
        rw [lastByte_cons] at whole ih
        simp only [fed, beq_iff_eq, ↓reduceIte, ih whole]
        cases lines : rawLines (d :: front) with
        | nil => exact absurd lines (rawLines_ne_nil d front)
        | cons line lines => rfl

theorem rawLines_unended {line : Bytes} (inline : lineFeed ∉ line) (some_byte : line ≠ []) :
    rawLines line = [line] := by
  induction line with
  | nil => exact absurd rfl some_byte
  | cons c line ih =>
    have other : c ≠ byte '\n' := fun fed => inline (by simp [fed, lineFeed])
    simp only [rawLines, beq_iff_eq, other, ↓reduceIte]
    cases line with
    | nil => rfl
    | cons d line =>
      rw [ih (fun mem => inline (List.mem_cons_of_mem c mem)) (by simp)]

theorem rawLines_ended {line : Bytes} (inline : lineFeed ∉ line) :
    rawLines (line ++ [lineFeed]) = [line] := by
  induction line with
  | nil => rfl
  | cons c line ih =>
    have other : c ≠ byte '\n' := fun fed => inline (by simp [fed, lineFeed])
    simp only [List.cons_append, rawLines, beq_iff_eq, other, ↓reduceIte]
    rw [ih fun mem => inline (List.mem_cons_of_mem c mem)]

theorem headerLines_append {front : Bytes} (back : Bytes) (whole : lastByte lineFeed front = lineFeed) :
    headerLines (front ++ back) = headerLines front ++ headerLines back := by
  simp [headerLines, rawLines_append back whole]

/-- A text that ends inside of a line, taken apart in front of it. -/
theorem unended_line {text : Bytes} (inside : lastByte lineFeed text ≠ lineFeed) :
    ∃ front line, text = front ++ line ∧ lastByte lineFeed front = lineFeed ∧
    lineFeed ∉ line ∧ line ≠ [] ∧ line.getLast? = text.getLast? := by
  induction text with
  | nil => exact absurd rfl inside
  | cons c text ih =>
    rw [lastByte_cons] at inside
    cases text with
    | nil => exact ⟨[], [c], rfl, rfl, by simpa [lastByte, eq_comm] using inside, by simp, rfl⟩
    | cons d text =>
      obtain ⟨front, line, cut, whole, inline, some_byte, last⟩ :=
        ih (by simpa [lastByte_cons] using inside)
      rw [List.getLast?_cons_cons, cut]
      rw [cut] at last
      cases front with
      | nil =>
        by_cases fed : c = lineFeed
        · exact ⟨[c], line, rfl, fed, inline, some_byte, last⟩
        · refine ⟨[], c :: line, rfl, rfl, by simp [Ne.symm fed, inline], by simp, ?_⟩
          rw [List.getLast?_cons, List.nil_append]
          cases line with
          | nil => exact absurd rfl some_byte
          | cons e line => simp [List.getLast?_cons]
      | cons e front =>
        exact ⟨c :: e :: front, line,
          rfl, by simpa [lastByte_cons] using whole, inline, some_byte, last⟩

theorem chopReturn_append (line : Bytes) : chopReturn (line ++ [byte '\r']) = line := by
  simp [chopReturn]

theorem chopReturn_eq_self_iff {line : Bytes} (some_byte : line ≠ []) :
    chopReturn line = line ↔ line.getLast? ≠ some (byte '\r') := by
  rw [chopReturn]
  by_cases returned : line.getLast? = some (byte '\r')
  · simp only [returned, beq_self_eq_true, ↓reduceIte, ne_eq, not_true_eq_false, iff_false]
    intro same
    have := congrArg List.length same
    rw [List.length_dropLast] at this
    have := List.length_pos_iff.mpr some_byte
    omega
  · simp [returned]

theorem headerLines_lineFeed {text : Bytes} (inside : lastByte lineFeed text ≠ lineFeed) :
    headerLines (text ++ [lineFeed]) = headerLines text := by
  obtain ⟨front, line, rfl, whole, inline, some_byte, -⟩ := unended_line inside
  rw [List.append_assoc, headerLines_append _ whole, headerLines_append _ whole, headerLines,
    headerLines, rawLines_ended inline, headerLines, rawLines_unended inline some_byte]

theorem headerLines_crlf {text : Bytes} (inside : lastByte lineFeed text ≠ lineFeed) :
    headerLines (text ++ crlf) = headerLines text ↔ text.getLast? ≠ some (byte '\r') := by
  obtain ⟨front, line, rfl, whole, inline, some_byte, last⟩ := unended_line inside
  rw [← last, List.append_assoc, headerLines_append _ whole, headerLines_append _ whole,
    List.append_cancel_left_eq]
  have returned : lineFeed ∉ line ++ [byte '\r'] := by
    simpa using ⟨inline, by decide⟩
  have ended := rawLines_ended returned
  rw [List.append_assoc, show [byte '\r'] ++ [lineFeed] = crlf from rfl] at ended
  rw [headerLines, headerLines, ended, rawLines_unended inline some_byte, List.map_singleton,
    List.map_singleton, chopReturn_append, ← chopReturn_eq_self_iff some_byte, List.singleton_inj]
  exact eq_comm

end Lines

section Cuts

structure LineCut.At (previous : UInt8) (text : Bytes) (cut : LineCut) : Prop where
  text_eq : text = cut.before ++ cut.terminator ++ cut.behind
  opened : lastByte previous cut.before = lineFeed
  ended : cut.terminator = crlf ∨ cut.terminator = [lineFeed]

theorem LineCut.At.cons {previous c : UInt8} {text : Bytes} {cut : LineCut} (empty : cut.At c text) :
    LineCut.At previous (c :: text) { cut with before := c :: cut.before } where
  text_eq := congrArg (c :: ·) empty.text_eq
  opened := (lastByte_cons previous c cut.before).trans empty.opened
  ended := empty.ended

theorem firstEmptyLine_at {previous : UInt8} {text : Bytes} {cut : LineCut}
    (first : firstEmptyLine previous text = some cut) : cut.At previous text := by
  induction text generalizing previous cut with
  | nil => cases first
  | cons c text ih =>
    rw [firstEmptyLine] at first
    split at first
    · rename_i fed
      obtain ⟨opened, rfl⟩ : previous = lineFeed ∧ c = lineFeed := by simpa using fed
      cases first
      exact ⟨rfl, opened, .inr rfl⟩
    · split at first
      · rename_i fed
        obtain ⟨⟨opened, rfl⟩, next⟩ :
          (previous = lineFeed ∧ c = byte '\r') ∧ text.head? = some lineFeed := by
          simpa using fed
        obtain ⟨rest, rfl⟩ := List.head?_eq_some_iff.mp next
        cases first
        exact ⟨rfl, opened, .inl rfl⟩
      · obtain ⟨cut, later, rfl⟩ := Option.map_eq_some_iff.mp first
        exact (ih later).cons

/-- No empty line is in front of the first one. -/
theorem firstEmptyLine_le {previous : UInt8} {text : Bytes} {cut : LineCut}
    (empty : cut.At previous text) :
    ∃ first, firstEmptyLine previous text = some first ∧ first.before.length ≤ cut.before.length := by
  induction text generalizing previous cut with
  | nil =>
    have := empty.text_eq
    obtain ended | ended := empty.ended <;> simp [ended, crlf, ascii] at this
  | cons c text ih =>
    rw [firstEmptyLine]
    split
    · exact ⟨_, rfl, Nat.zero_le _⟩
    · rename_i notFed
      split
      · exact ⟨_, rfl, Nat.zero_le _⟩
      · rename_i notReturned
        obtain ⟨before, terminator, behind⟩ := cut
        obtain ⟨text_eq, opened, ended⟩ := empty
        dsimp only at text_eq opened ended
        cases before with
        | nil =>
          obtain rfl : previous = lineFeed := opened
          obtain rfl | rfl := ended
          · obtain ⟨rfl, rfl⟩ : c = byte '\r' ∧ text = lineFeed :: behind := List.cons.inj text_eq
            simp at notReturned
          · obtain ⟨rfl, -⟩ := List.cons.inj text_eq
            simp at notFed
        | cons d before =>
          obtain ⟨rfl, rest_eq⟩ := List.cons.inj text_eq
          rw [lastByte_cons] at opened
          have empty : LineCut.At c text ⟨before, terminator, behind⟩ := ⟨rest_eq, opened, ended⟩
          obtain ⟨first, found, le⟩ := ih empty
          rw [found]
          exact ⟨_, rfl, Nat.succ_le_succ le⟩

theorem find_some {pattern text : Bytes} {pos : Nat} (found : find pattern text = some pos) :
    ∃ front back, text = front ++ pattern ++ back ∧ front.length = pos := by
  induction text generalizing pos with
  | nil =>
    rw [find] at found
    split at found
    · rename_i empty
      cases found
      exact ⟨[], [], by simpa using empty, rfl⟩
    · cases found
  | cons c text ih =>
    rw [find] at found
    split at found
    · rename_i first
      cases found
      obtain ⟨back, eq⟩ := List.isPrefixOf_iff_prefix.mp first
      exact ⟨[], back, eq.symm, rfl⟩
    · obtain ⟨pos, later, rfl⟩ := Option.map_eq_some_iff.mp found
      obtain ⟨front, back, rfl, rfl⟩ := ih later
      exact ⟨c :: front, back, rfl, rfl⟩

theorem find_le {pattern : Bytes} (front back : Bytes) :
    ∃ pos ≤ front.length, find pattern (front ++ pattern ++ back) = some pos := by
  induction front with
  | nil =>
    refine ⟨0, Nat.le_refl 0, ?_⟩
    rw [List.nil_append]
    cases text : pattern ++ back with
    | nil => simp [find, (List.append_eq_nil_iff.mp text).1]
    | cons c rest =>
      have first : pattern.isPrefixOf (c :: rest) := List.isPrefixOf_iff_prefix.mpr ⟨back, text⟩
      rw [find, if_pos first]
  | cons c front ih =>
    obtain ⟨pos, le, found⟩ := ih
    rw [List.cons_append, List.cons_append, find]
    split
    · exact ⟨0, Nat.zero_le _, rfl⟩
    · exact ⟨pos + 1, Nat.succ_le_succ le, by rw [found]; rfl⟩

theorem find_crlf_le {text front back : Bytes} (eq : text = front ++ crlf ++ crlf ++ back) :
    ∃ pos ≤ front.length, find (ascii "\r\n\r\n") text = some pos := by
  have twice : text = front ++ ascii "\r\n\r\n" ++ back := by simp [eq, crlf, ascii]
  rw [twice]
  exact find_le front back

theorem find_lineFeed_le {text front back : Bytes}
    (eq : text = front ++ [lineFeed] ++ [lineFeed] ++ back) :
    ∃ pos ≤ front.length, find (ascii "\n\n") text = some pos := by
  have twice : text = front ++ ascii "\n\n" ++ back := by simp [eq, lineFeed, ascii]
  rw [twice]
  exact find_le front back

theorem closed_line {before : Bytes} (opened : lastByte lineFeed before = lineFeed)
    (some_line : before ≠ []) :
    ∃ line, before = line ++ [lineFeed] := by
  obtain ⟨line, last, before⟩ := (List.eq_nil_or_concat before).resolve_left some_line
  rw [before, List.concat_eq_append, lastByte_append] at opened
  obtain rfl : last = lineFeed := opened
  exact ⟨line, by rw [before, List.concat_eq_append]⟩

end Cuts

section Messages

variable {text : Bytes} {cut : LineCut}

theorem messageParts_of_cut (first : firstEmptyLine lineFeed text = some cut) :
    messageParts text = (headerLines cut.before, cut.behind) := by
  rw [messageParts, first]

theorem splitMessage_crlf {front body : Bytes}
    (found : find (ascii "\r\n\r\n") (front ++ ascii "\r\n\r\n" ++ body) = some front.length) :
    splitMessage (front ++ ascii "\r\n\r\n" ++ body) = (front, body) := by
  rw [splitMessage, found]
  have four : (front ++ ascii "\r\n\r\n").length = front.length + 4 := List.length_append
  dsimp only
  rw [← four, List.drop_left, List.append_assoc, List.take_left]

theorem splitMessage_lineFeed {front body : Bytes}
    (notFound : find (ascii "\r\n\r\n") (front ++ ascii "\n\n" ++ body) = none)
    (found : find (ascii "\n\n") (front ++ ascii "\n\n" ++ body) = some front.length) :
    splitMessage (front ++ ascii "\n\n" ++ body) = (front, body) := by
  rw [splitMessage, notFound, found]
  have two : (front ++ ascii "\n\n").length = front.length + 2 := List.length_append
  dsimp only
  rw [← two, List.drop_left, List.append_assoc, List.take_left]

theorem first_le_crlf {front body : Bytes} (first : firstEmptyLine lineFeed text = some cut)
    (eq : text = front ++ ascii "\r\n\r\n" ++ body) : cut.before.length ≤ front.length + 2 := by
  have empty : LineCut.At lineFeed text ⟨front ++ crlf, crlf, body⟩ :=
    ⟨by simp [eq, crlf, ascii], lastByte_append lineFeed front crlf, .inl rfl⟩
  obtain ⟨same, found, le⟩ := firstEmptyLine_le empty
  cases first.symm.trans found
  rwa [List.length_append] at le

theorem first_le_lineFeed {front body : Bytes} (first : firstEmptyLine lineFeed text = some cut)
    (eq : text = front ++ ascii "\n\n" ++ body) : cut.before.length ≤ front.length + 1 := by
  have empty : LineCut.At lineFeed text ⟨front ++ [lineFeed], [lineFeed], body⟩ :=
    ⟨by simp [eq, ascii, lineFeed], lastByte_append lineFeed front [lineFeed], .inr rfl⟩
  obtain ⟨same, found, le⟩ := firstEmptyLine_le empty
  cases first.symm.trans found
  rwa [List.length_append] at le

theorem inside_of_first {front terminator : Bytes} (first : firstEmptyLine lineFeed text = some cut)
    (before : cut.before = front ++ terminator) (ended : terminator = crlf ∨ terminator = [lineFeed]) :
    lastByte lineFeed front ≠ lineFeed := by
  intro opened
  have eq := (firstEmptyLine_at first).text_eq
  rw [before, List.append_assoc] at eq
  have empty : LineCut.At lineFeed text ⟨front, terminator, cut.terminator ++ cut.behind⟩ :=
    ⟨eq, opened, ended⟩
  obtain ⟨same, found, le⟩ := firstEmptyLine_le empty
  cases first.symm.trans found
  have := congrArg List.length before
  obtain rfl | rfl := ended <;> simp [crlf, ascii] at this le <;> omega

theorem splitMessage_of_none (none : firstEmptyLine lineFeed text = none) :
    splitMessage text = (text, []) := by
  have noCrlf : find (ascii "\r\n\r\n") text = .none := by
    by_contra found
    obtain ⟨pos, found⟩ := Option.ne_none_iff_exists'.mp found
    obtain ⟨front, back, eq, -⟩ := find_some found
    have empty : LineCut.At lineFeed text ⟨front ++ crlf, crlf, back⟩ :=
      ⟨by simp [eq, crlf, ascii], lastByte_append lineFeed front crlf, .inl rfl⟩
    obtain ⟨first, found, -⟩ := firstEmptyLine_le empty
    cases none.symm.trans found
  have noLineFeed : find (ascii "\n\n") text = .none := by
    by_contra found
    obtain ⟨pos, found⟩ := Option.ne_none_iff_exists'.mp found
    obtain ⟨front, back, eq, -⟩ := find_some found
    have empty : LineCut.At lineFeed text ⟨front ++ [lineFeed], [lineFeed], back⟩ :=
      ⟨by simp [eq, ascii, lineFeed], lastByte_append lineFeed front [lineFeed], .inr rfl⟩
    obtain ⟨first, found, -⟩ := firstEmptyLine_le empty
    cases none.symm.trans found
  rw [splitMessage, noCrlf, noLineFeed]

theorem crlfs_behind {front body before behind : Bytes} (opened : lastByte lineFeed before = lineFeed)
    (le : before.length ≤ front.length + 2)
    (eq : front ++ ascii "\r\n\r\n" ++ body = before ++ [lineFeed] ++ behind) :
    ascii "\r\n\r\n" <:+: behind := by
  have other : byte '\r' ≠ lineFeed := by decide
  rw [List.append_assoc, List.append_assoc, List.append_eq_append_iff] at eq
  obtain ⟨gap, rfl, rest⟩ | ⟨gap, rfl, rest⟩ := eq
  · -- The pattern reaches into what is in front of the empty line, by two bytes at most.
    match gap with
    | [] => exact absurd (List.cons.inj rest).1 other
    | [c] =>
      rw [lastByte_append] at opened
      exact absurd ((List.cons.inj rest).1.trans opened) other
    | [c, d] => exact absurd (List.cons.inj (List.cons.inj (List.cons.inj rest).2).2).1 other
    | c :: d :: e :: gap =>
      simp only [List.length_append, List.length_cons] at le
      omega
  · match gap with
    | [] => exact absurd (List.cons.inj rest).1.symm other
    | c :: gap =>
      obtain ⟨-, rfl⟩ := List.cons.inj rest
      exact ⟨gap, body, List.append_assoc gap _ body⟩

theorem crlf_split_iff {front body : Bytes}
    (first : firstEmptyLine lineFeed (front ++ ascii "\r\n\r\n" ++ body) = some cut)
    (found : find (ascii "\r\n\r\n") (front ++ ascii "\r\n\r\n" ++ body) = some front.length) :
    (headerLines front, body) = (headerLines cut.before, cut.behind) ↔ cut.Seen := by
  obtain ⟨eq, opened, ended⟩ := firstEmptyLine_at first
  have le := first_le_crlf first rfl
  have twice :
    front ++ ascii "\r\n\r\n" ++ body = front ++ crlf ++ (crlf ++ body) := by simp [crlf, ascii]
  constructor
  · intro same
    obtain ⟨headers, rfl⟩ := Prod.mk.inj same
    have lengths := congrArg List.length eq
    have two : crlf.length = 2 := rfl
    have four : (ascii "\r\n\r\n").length = 4 := rfl
    simp only [List.length_append] at lengths
    obtain ended | ended := ended
    · rw [twice, ended, List.append_assoc cut.before] at eq
      rw [ended] at lengths
      obtain ⟨before, -⟩ := List.append_inj eq (by rw [List.length_append]; omega)
      have inside := inside_of_first first before.symm (.inl rfl)
      rw [← before] at headers
      exact .inl ⟨ended, front, before.symm, (headerLines_crlf inside).mp headers.symm⟩
    · rw [ended, List.length_singleton] at lengths
      omega
  · rintro (⟨ended, line, before, unreturned⟩ | ⟨ended, -, unseen⟩)
    · rw [before, List.length_append] at le
      rw [before, ended] at eq
      obtain ⟨pos, earliest, same⟩ := find_crlf_le eq
      cases found.symm.trans same
      rw [twice, List.append_assoc (line ++ crlf)] at eq
      have two : crlf.length = 2 := rfl
      obtain ⟨lines, behind⟩ := List.append_inj eq (by simp only [List.length_append]; omega)
      obtain rfl := List.append_cancel_right lines
      rw [← List.append_cancel_left behind, before,
        (headerLines_crlf (inside_of_first first before (.inl rfl))).mpr unreturned]
    · rw [ended] at eq
      exact absurd (crlfs_behind opened le eq) unseen

theorem lineFeed_split_iff {front body : Bytes}
    (first : firstEmptyLine lineFeed (front ++ ascii "\n\n" ++ body) = some cut)
    (notFound : find (ascii "\r\n\r\n") (front ++ ascii "\n\n" ++ body) = none)
    (found : find (ascii "\n\n") (front ++ ascii "\n\n" ++ body) = some front.length) :
    (headerLines front, body) = (headerLines cut.before, cut.behind) ↔ cut.Seen := by
  obtain ⟨eq, opened, ended⟩ := firstEmptyLine_at first
  have le := first_le_lineFeed first rfl
  have twice : front ++ ascii "\n\n" ++ body = front ++ [lineFeed] ++ ([lineFeed] ++ body) := by
    simp [ascii, lineFeed]
  constructor
  · intro same
    obtain ⟨-, rfl⟩ := Prod.mk.inj same
    have lengths := congrArg List.length eq
    have two : (ascii "\n\n").length = 2 := rfl
    simp only [List.length_append] at lengths
    obtain ended | ended := ended
    · rw [ended, show crlf.length = 2 from rfl] at lengths
      rw [ended, List.append_assoc, List.append_assoc] at eq
      have clash := (List.append_inj eq (by omega)).2
      exact absurd (List.cons.inj clash).1 (by decide)
    · rw [twice, ended, List.append_assoc cut.before] at eq
      rw [ended, List.length_singleton] at lengths
      obtain ⟨before, -⟩ :=
        List.append_inj eq (by rw [List.length_append, List.length_singleton]; omega)
      refine .inr ⟨ended, by simp [← before], ?_⟩
      rintro ⟨gap, back, behind⟩
      have again : front ++ ascii "\n\n" ++ cut.behind = front ++ ascii "\n\n" ++ gap ++ crlf ++
          crlf ++ back := by
        simp [← behind, crlf, ascii]
      obtain ⟨pos, -, found⟩ := find_crlf_le again
      cases notFound.symm.trans found
  · rintro (⟨ended, line, before, -⟩ | ⟨ended, some_line, -⟩)
    · rw [before, ended] at eq
      obtain ⟨pos, -, same⟩ := find_crlf_le eq
      cases notFound.symm.trans same
    · obtain ⟨line, before⟩ := closed_line opened some_line
      rw [before, List.length_append, List.length_singleton] at le
      rw [before, ended] at eq
      obtain ⟨pos, earliest, same⟩ := find_lineFeed_le eq
      cases found.symm.trans same
      rw [twice, List.append_assoc (line ++ [lineFeed])] at eq
      obtain ⟨lines, behind⟩ := List.append_inj eq (by simp only [List.length_append]; omega)
      obtain rfl := List.append_cancel_right lines
      rw [← List.append_cancel_left behind, before,
        headerLines_lineFeed (inside_of_first first before (.inr rfl))]

theorem unsplit_not_seen (first : firstEmptyLine lineFeed text = some cut)
    (noCrlf : find (ascii "\r\n\r\n") text = none) (noLineFeed : find (ascii "\n\n") text = none) :
    ¬ cut.Seen := by
  obtain ⟨eq, opened, -⟩ := firstEmptyLine_at first
  rintro (⟨ended, line, before, -⟩ | ⟨ended, some_line, -⟩)
  · rw [before, ended] at eq
    obtain ⟨pos, -, found⟩ := find_crlf_le eq
    cases noCrlf.symm.trans found
  · obtain ⟨line, before⟩ := closed_line opened some_line
    rw [before, ended] at eq
    obtain ⟨pos, -, found⟩ := find_lineFeed_le eq
    cases noLineFeed.symm.trans found

theorem headerLines_empty {front terminator : Bytes} (opened : lastByte lineFeed front = lineFeed)
    (ended : terminator = crlf ∨ terminator = [lineFeed]) :
    headerLines (front ++ terminator) = headerLines front ++ [[]] := by
  rw [headerLines_append terminator opened]
  obtain rfl | rfl := ended <;> rfl

theorem splitMessage_iff (text : Bytes) :
    (headerLines (splitMessage text).1, (splitMessage text).2) = messageParts text ↔
      ∀ cut, firstEmptyLine lineFeed text = some cut → cut.Seen := by
  cases first : firstEmptyLine lineFeed text with
  | none => simp [messageParts, first, splitMessage_of_none first]
  | some cut =>
    simp only [messageParts_of_cut first, Option.some.injEq, forall_eq']
    cases noCrlf : find (ascii "\r\n\r\n") text with
    | some pos =>
      obtain ⟨front, body, rfl, rfl⟩ := find_some noCrlf
      rw [splitMessage_crlf noCrlf]
      exact crlf_split_iff first noCrlf
    | none =>
      cases noLineFeed : find (ascii "\n\n") text with
      | some pos =>
        obtain ⟨front, body, rfl, rfl⟩ := find_some noLineFeed
        rw [splitMessage_lineFeed noCrlf noLineFeed]
        exact lineFeed_split_iff first noCrlf noLineFeed
      | none =>
        refine iff_of_false ?_ (unsplit_not_seen first noCrlf noLineFeed)
        intro same
        obtain ⟨text_eq, opened, ended⟩ := firstEmptyLine_at first
        rw [splitMessage, noCrlf, noLineFeed] at same
        obtain ⟨headers, behind⟩ := Prod.mk.inj same
        rw [text_eq, ← behind, List.append_nil, headerLines_empty opened ended] at headers
        simpa using congrArg List.length headers

end Messages
end Fetch
open Fetch

/-- Both commands cut a message at its first empty line exactly if they see that line. -/
theorem FetchMessageCommand.message_split_iff (messages : List Mail) {r : UntaggedResponse}
    {text : Bytes}
    (fetch : r.kind = .fetch)
    (read : parseBodySectionAttribute (ascii "BODY[]") r.payload = some (some text)) :
    let parts := splitMessage text
    let message : Mail := { header := parseMailHeaderBlock parts.1 {}, body := { data := parts.2 } }
    FetchMessageCommand.onUntagged messages r = messages ++ [message] ∧
      UidFetchMessageCommand.onUntagged messages r = messages ++ [message] ∧
      ((headerLines parts.1, parts.2) = messageParts text ↔
        ∀ cut, firstEmptyLine lineFeed text = some cut → cut.Seen) := by
  have absorbed : absorbMessage messages r = messages ++ [readMail text] := by
    rw [absorbMessage, if_neg (by simp [fetch]), read]
    rfl
  exact ⟨absorbed, absorbed, splitMessage_iff text⟩

theorem FetchMessageCommand.mixed_lines_split :
    (headerLines (splitMessage (ascii "A:\nB:\r\n\r\nc")).1,
    (splitMessage (ascii "A:\nB:\r\n\r\nc")).2) =
      messageParts (ascii "A:\nB:\r\n\r\nc") := by
  have read :
    parseBodySectionAttribute (ascii "BODY[]") (ascii "(BODY[] \x7b10\x7d\r\nA:\nB:\r\n\r\nc)") =
      some (some (ascii "A:\nB:\r\n\r\nc")) := by decide +kernel
  apply (FetchMessageCommand.message_split_iff [] (r := { kind := .fetch, payload := _ }) rfl
    read).2.2.mpr
  intro cut first
  obtain rfl : cut = ⟨ascii "A:\nB:\r\n", crlf, ascii "c"⟩ := Option.some.inj (first.symm.trans rfl)
  exact .inl ⟨rfl, ascii "A:\nB:", rfl, by decide⟩

/-- The empty line in front of this body is not seen: the body is taken for a header. -/
theorem FetchMessageCommand.leading_line_missed :
    parseBodySectionAttribute (ascii "BODY[]") (ascii "(BODY[] \x7b6\x7d\r\n\r\nbody)") = some (some (ascii "\r\nbody")) ∧
      FetchMessageCommand.onUntagged [] { kind := .fetch, payload := ascii "(BODY[] \x7b6\x7d\r\n\r\nbody)" } = [{}] ∧
      splitMessage (ascii "\r\nbody") = (ascii "\r\nbody", []) ∧
      messageParts (ascii "\r\nbody") = ([], ascii "body") := by
  refine ⟨by decide +kernel, by decide +kernel, rfl, rfl⟩

end Bkmail
