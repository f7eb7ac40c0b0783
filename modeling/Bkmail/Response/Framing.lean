import Bkmail.Automaton.Framing
import Bkmail.Wire.Tags
import Mathlib.Data.List.TakeWhile

namespace Bkmail

open Automaton

/-! The reference framing takes the whole stream at once and keeps no cursor. It has a grammar of
literal trailers of its own. -/

/-- The line ends in a literal trailer: a count in braces, which may have a plus behind it, at the
    start of the line or behind a space or a tilde. A count that 64 bits do not hold announces
    nothing. -/
def Announces (line : Bytes) (n : Nat) : Prop :=
  ∃ before digits plus, line = before ++ byte '\x7b' :: (digits ++ plus ++ [byte '\x7d']) ∧
    digits ≠ [] ∧ (∀ c ∈ digits, isDigit c = true) ∧ (plus = [] ∨ plus = [byte '+']) ∧
    (∀ c, before.getLast? = some c → c = byte ' ' ∨ c = byte '~') ∧ decimalValue digits = n ∧ n < 2 ^ 64

def closedCount (text : Bytes) : Option Nat :=
  let digits := text.takeWhile isDigit
  let rest := text.dropWhile isDigit
  if digits ≠ [] ∧ (rest = [byte '\x7d'] ∨ rest = [byte '+', byte '\x7d']) ∧
    decimalValue digits < 2 ^ 64 then
    some (decimalValue digits)
  else none

def announcedFrom : Bool → Bytes → Option Nat
  | _, [] => none
  | alone, c :: rest =>
    (if alone && c == byte '\x7b' then closedCount rest else none).or
      (announcedFrom (c == byte ' ' || c == byte '~') rest)

def announced (line : Bytes) : Option Nat := announcedFrom true line

theorem closedCount_iff {text : Bytes} {n : Nat} : closedCount text = some n ↔
    ∃ digits plus, text = digits ++ plus ++ [byte '\x7d'] ∧ digits ≠ [] ∧
    (∀ c ∈ digits, isDigit c = true) ∧ (plus = [] ∨ plus = [byte '+']) ∧ decimalValue digits = n ∧
    n < 2 ^ 64 := by
  constructor
  · intro counted
    simp only [closedCount] at counted
    split at counted
    · next shape =>
      obtain ⟨filled, rest, fits⟩ := shape
      cases counted
      have whole := text.takeWhile_append_dropWhile (p := isDigit)
      have all : ∀ c ∈ text.takeWhile isDigit, isDigit c = true :=
        fun c member => List.mem_takeWhile_imp member
      rcases rest with rest | rest
      · exact ⟨_, [], by rw [List.append_nil, ← rest, whole], filled, all, .inl rfl, rfl, fits⟩
      · refine ⟨_, [byte '+'], ?_, filled, all, .inr rfl, rfl, fits⟩
        rw [List.append_assoc, List.singleton_append, ← rest, whole]
    · cases counted
  · rintro ⟨digits, plus, rfl, filled, all, sign, rfl, fits⟩
    have ends : ∀ c, (plus ++ [byte '\x7d']).head? = some c → isDigit c = false := by
      rcases sign with rfl | rfl <;> rintro c ⟨⟩ <;> rfl
    have run : (digits ++ plus ++ [byte '\x7d']).takeWhile isDigit = digits ∧
        (digits ++ plus ++ [byte '\x7d']).dropWhile isDigit = plus ++ [byte '\x7d'] := by
      rw [List.append_assoc, List.takeWhile_append_of_pos all, List.dropWhile_append_of_pos all]
      rcases sign with rfl | rfl <;> exact ⟨List.append_nil _, rfl⟩
    rw [closedCount]
    simp only [run.1, run.2]
    refine if_pos ⟨filled, ?_, fits⟩
    rcases sign with rfl | rfl
    · exact .inl rfl
    · exact .inr rfl

theorem closedCount_unopened {text : Bytes} {n : Nat} (counted : closedCount text = some n) :
    byte '\x7b' ∉ text := by
  obtain ⟨digits, plus, rfl, -, all, sign, -⟩ := closedCount_iff.mp counted
  intro member
  rcases List.mem_append.mp member with member | member
  · rcases List.mem_append.mp member with member | member
    · exact absurd (all _ member) (by decide)
    · rcases sign with rfl | rfl
      · cases member
      · exact absurd (List.mem_singleton.mp member) (by decide)
  · exact absurd (List.mem_singleton.mp member) (by decide)

theorem announcedFrom_iff {alone : Bool} {line : Bytes} {n : Nat} : announcedFrom alone line = some n ↔
    ∃ before text, line = before ++ byte '\x7b' :: text ∧ closedCount text = some n ∧
    (before = [] → alone = true) ∧ ∀ c, before.getLast? = some c → c = byte ' ' ∨ c = byte '~' := by
  induction line generalizing alone with
  | nil => simp [announcedFrom]
  | cons c line ih =>
    rw [announcedFrom, Option.or_eq_some_iff, ih]
    constructor
    · rintro (here | ⟨-, before, text, rfl, counted, own, alones⟩)
      · split at here
        · next opens =>
          obtain ⟨start, brace⟩ := Bool.and_eq_true_iff.mp opens
          exact ⟨[], line, by rw [eq_of_beq brace]; rfl, here, fun _ => start, nofun⟩
        · cases here
      · refine ⟨c :: before, text, rfl, counted, nofun, fun d last => ?_⟩
        cases before with
        | nil =>
          cases last
          simpa using own rfl
        | cons e before => exact alones d (List.getLast?_cons_cons ▸ last)
    · rintro ⟨before, text, same, counted, start, alones⟩
      cases before with
      | nil =>
        obtain ⟨rfl, rfl⟩ := List.cons.inj same
        exact .inl (by rw [start rfl]; exact counted)
      | cons e before =>
        obtain ⟨rfl, rfl⟩ := List.cons.inj same
        refine .inr ⟨?_, before, text, rfl, counted, ?_, fun d last => alones d ?_⟩
        · split
          · rw [Option.eq_none_iff_forall_ne_some]
            intro m opened
            exact closedCount_unopened opened (List.mem_append_right _ List.mem_cons_self)
          · rfl
        · rintro rfl
          simpa using alones c rfl
        · cases before with
          | nil => cases last
          | cons => exact List.getLast?_cons_cons.trans last

theorem announced_iff {line : Bytes} {n : Nat} : announced line = some n ↔ Announces line n := by
  rw [announced, announcedFrom_iff]
  constructor
  · rintro ⟨before, text, rfl, counted, -, own⟩
    obtain ⟨digits, plus, rfl, filled, all, sign, value, fits⟩ := closedCount_iff.mp counted
    exact ⟨before, digits, plus, rfl, filled, all, sign, own, value, fits⟩
  · rintro ⟨before, digits, plus, rfl, filled, all, sign, own, value, fits⟩
    exact ⟨before, _, rfl, closedCount_iff.mpr ⟨digits, plus, rfl, filled, all, sign, value, fits⟩,
      fun _ => rfl, own⟩

theorem announced_none_iff {line : Bytes} : announced line = none ↔ ∀ n, ¬ Announces line n := by
  simp only [Option.eq_none_iff_forall_ne_some, ne_eq, announced_iff]

def splitLine : Bytes → Option (Bytes × Bytes)
  | c :: d :: rest =>
    if c == byte '\r' && d == byte '\n' then some ([], rest)
    else (splitLine (d :: rest)).map fun (line, after) => (c :: line, after)
  | _ => none

theorem splitLine_join {text line after : Bytes} (split : splitLine text = some (line, after)) :
    text = line ++ crlf ++ after := by
  induction text generalizing line with
  | nil => cases split
  | cons c rest ih =>
    match rest with
    | [] => cases split
    | d :: rest =>
      simp only [splitLine] at split
      split at split
      · next found =>
        simp only [Bool.and_eq_true, beq_iff_eq] at found
        obtain ⟨rfl, rfl⟩ := found
        obtain ⟨rfl, rfl⟩ := Prod.mk.inj (Option.some.inj split)
        rfl
      · obtain ⟨⟨tail, behind⟩, later, same⟩ := Option.map_eq_some_iff.mp split
        obtain ⟨rfl, rfl⟩ := Prod.mk.inj same
        rw [ih later]
        rfl

theorem splitLine_append {text line after : Bytes} (more : Bytes)
    (split : splitLine text = some (line, after)) :
    splitLine (text ++ more) = some (line, after ++ more) := by
  induction text generalizing line with
  | nil => cases split
  | cons c rest ih =>
    match rest with
    | [] => cases split
    | d :: rest =>
      simp only [splitLine] at split
      simp only [List.cons_append, splitLine]
      split at split
      · next found =>
        obtain ⟨rfl, rfl⟩ := Prod.mk.inj (Option.some.inj split)
        rw [if_pos found]
      · next other =>
        obtain ⟨⟨tail, behind⟩, later, same⟩ := Option.map_eq_some_iff.mp split
        obtain ⟨rfl, rfl⟩ := Prod.mk.inj same
        have extended := ih later
        rw [List.cons_append] at extended
        rw [if_neg other, extended]
        rfl

theorem crlf_infix_cons {c d : UInt8} {rest : Bytes}
    (found : (c == byte '\r' && d == byte '\n') = true) :
    crlf <:+: c :: d :: rest := by
  simp only [Bool.and_eq_true, beq_iff_eq] at found
  obtain ⟨rfl, rfl⟩ := found
  exact ⟨[], rest, rfl⟩

theorem splitLine_unbroken {text line after : Bytes} (split : splitLine text = some (line, after)) :
    ¬ crlf <:+: line := by
  induction text generalizing line with
  | nil => cases split
  | cons c rest ih =>
    match rest with
    | [] => cases split
    | d :: rest =>
      simp only [splitLine] at split
      split at split
      · obtain ⟨rfl, -⟩ := Prod.mk.inj (Option.some.inj split)
        exact fun inside => absurd inside.length_le (by decide)
      · next other =>
        obtain ⟨⟨tail, behind⟩, later, same⟩ := Option.map_eq_some_iff.mp split
        obtain ⟨rfl, rfl⟩ := Prod.mk.inj same
        intro inside
        rcases List.infix_cons_iff.mp inside with start | inside
        · obtain ⟨more, start⟩ := start
          obtain ⟨rfl, rfl⟩ := List.cons.inj start
          obtain ⟨rfl, -⟩ := List.cons.inj (splitLine_join later)
          exact other rfl
        · exact ih later inside

theorem splitLine_of_unbroken {line : Bytes} (unbroken : ¬ crlf <:+: line) (after : Bytes) :
    splitLine (line ++ crlf ++ after) = some (line, after) := by
  induction line with
  | nil => rfl
  | cons c line ih =>
    have tail := ih fun inside => unbroken (inside.trans (List.suffix_cons c line).isInfix)
    match line with
    | [] =>
      have other : ¬ (c == byte '\r' && byte '\r' == byte '\n') = true := by
        rw [show (byte '\r' == byte '\n') = false from rfl, Bool.and_false]
        exact Bool.false_ne_true
      change splitLine (c :: byte '\r' :: byte '\n' :: after) = _
      rw [splitLine, if_neg other]
      exact congrArg _ tail
    | d :: line =>
      have other : ¬ (c == byte '\r' && d == byte '\n') = true :=
        fun found => unbroken (crlf_infix_cons found)
      simp only [List.cons_append] at tail ⊢
      rw [splitLine, if_neg other, tail]
      rfl

theorem take_of_splitLine {stream line : Bytes} {start stop : Nat}
    (split : splitLine (stream.drop start) = some (line, stream.drop stop)) :
    stream.take stop = stream.take start ++ (line ++ crlf) := by
  apply List.append_cancel_right
  rw [List.take_append_drop stop stream, List.append_assoc, ← splitLine_join split,
    List.take_append_drop]

theorem splitLine_shrinks {text line after : Bytes} (split : splitLine text = some (line, after)) :
    after.length < text.length := by
  rw [splitLine_join split]
  simp only [List.length_append, crlf, ascii]
  simp

/-- The first response of a stream and what follows its CRLF: lines up to the first one without
    a literal trailer, each trailer followed by as many octets as it announces. -/
def firstResponse (stream : Bytes) : Option (Bytes × Bytes) :=
  match split : splitLine stream with
  | none => none
  | some (line, after) =>
    match announced line with
    | none => some (line, after)
    | some size =>
      have := splitLine_shrinks split
      if after.length < size then none
      else (firstResponse (after.drop size)).map fun (tail, rest) =>
        (line ++ crlf ++ after.take size ++ tail, rest)
termination_by stream.length
decreasing_by
  simp only [List.length_drop]
  omega

def behind (seen : Bytes) (found : Option (Bytes × Bytes)) : Option (Bytes × Bytes) :=
  found.map fun (text, rest) => (seen ++ text, rest)

theorem behind_behind (first second : Bytes) (found : Option (Bytes × Bytes)) :
    behind first (behind second found) = behind (first ++ second) found := by
  cases found <;> simp [behind]

theorem behind_nil (found : Option (Bytes × Bytes)) : behind [] found = found := by
  cases found <;> simp [behind]

theorem firstResponse_waiting {stream : Bytes} (split : splitLine stream = none) :
    firstResponse stream = none := by
  rw [firstResponse]
  split
  · rfl
  · next line after found => simp [split] at found

theorem firstResponse_line {stream line after : Bytes} (split : splitLine stream = some (line, after))
    (plain : announced line = none) : firstResponse stream = some (line, after) := by
  rw [firstResponse]
  split
  · next none => simp [split] at none
  · next found =>
    obtain ⟨rfl, rfl⟩ := Prod.mk.inj (Option.some.inj (split.symm.trans found))
    simp [plain]

theorem firstResponse_literal {stream line after : Bytes} {size : Nat}
    (split : splitLine stream = some (line, after)) (trailer : announced line = some size) :
    firstResponse stream = if after.length < size then none
      else behind (line ++ crlf ++ after.take size) (firstResponse (after.drop size)) := by
  rw [firstResponse]
  split
  · next none => simp [split] at none
  · next found =>
    obtain ⟨rfl, rfl⟩ := Prod.mk.inj (Option.some.inj (split.symm.trans found))
    simp [trailer, behind]

theorem firstResponse_shrinks {stream text rest : Bytes}
    (found : firstResponse stream = some (text, rest)) :
    rest.length < stream.length := by
  fun_induction firstResponse stream generalizing text with
  | case1 => cases found
  | case2 stream line after split =>
    obtain ⟨rfl, rfl⟩ := Prod.mk.inj (Option.some.inj found)
    exact splitLine_shrinks split
  | case3 => cases found
  | case4 stream line after split size trailer shrinks enough ih =>
    obtain ⟨⟨tail, _⟩, later, same⟩ := Option.map_eq_some_iff.mp found
    obtain ⟨-, rfl⟩ := Prod.mk.inj same
    have shorter := ih later
    simp only [List.length_drop] at shorter
    omega

theorem firstResponse_append {stream text rest : Bytes} (more : Bytes)
    (found : firstResponse stream = some (text, rest)) :
    firstResponse (stream ++ more) = some (text, rest ++ more) := by
  fun_induction firstResponse stream generalizing text with
  | case1 => cases found
  | case2 stream line after split plain =>
    obtain ⟨rfl, rfl⟩ := Prod.mk.inj (Option.some.inj found)
    exact firstResponse_line (splitLine_append more split) plain
  | case3 => cases found
  | case4 stream line after split size trailer shrinks enough ih =>
    obtain ⟨⟨tail, _⟩, later, same⟩ := Option.map_eq_some_iff.mp found
    obtain ⟨rfl, rfl⟩ := Prod.mk.inj same
    have within : size ≤ after.length := Nat.le_of_not_lt enough
    rw [firstResponse_literal (splitLine_append more split) trailer, if_neg (by simp; omega),
      List.take_append_of_le_length within, List.drop_append_of_le_length within, ih later]
    rfl

/-- A complete response, without its final CRLF: lines with a literal trailer, each with the
    octets that it announces, and a plain line. -/
inductive CompleteResponse : Bytes → Prop where
  | line {line : Bytes} (unbroken : ¬ crlf <:+: line) (plain : ∀ n, ¬ Announces line n) :
      CompleteResponse line
  | literal {line octets text : Bytes} (unbroken : ¬ crlf <:+: line)
      (trailer : Announces line octets.length)
      (rest : CompleteResponse text) : CompleteResponse (line ++ crlf ++ octets ++ text)

theorem CompleteResponse.first {text : Bytes} (complete : CompleteResponse text) (rest : Bytes) :
    firstResponse (text ++ crlf ++ rest) = some (text, rest) := by
  induction complete with
  | line unbroken plain =>
      exact firstResponse_line (splitLine_of_unbroken unbroken rest) (announced_none_iff.mpr plain)
  | @literal line octets text unbroken trailer _ ih =>
    have split := splitLine_of_unbroken unbroken (octets ++ (text ++ crlf ++ rest))
    simp only [List.append_assoc] at split ih ⊢
    rw [firstResponse_literal split (announced_iff.mpr trailer), if_neg (by simp), List.drop_left,
      List.take_left, ih]
    simp [behind]

theorem complete_of_first {stream text rest : Bytes}
    (found : firstResponse stream = some (text, rest)) :
    CompleteResponse text ∧ stream = text ++ crlf ++ rest := by
  fun_induction firstResponse stream generalizing text with
  | case1 => cases found
  | case2 stream line after split plain =>
    obtain ⟨rfl, rfl⟩ := Prod.mk.inj (Option.some.inj found)
    exact ⟨.line (splitLine_unbroken split) (announced_none_iff.mp plain), splitLine_join split⟩
  | case3 => cases found
  | case4 stream line after split size trailer _ enough ih =>
    obtain ⟨⟨tail, _⟩, later, same⟩ := Option.map_eq_some_iff.mp found
    obtain ⟨rfl, rfl⟩ := Prod.mk.inj same
    obtain ⟨complete, joined⟩ := ih later
    have octets : (after.take size).length = size := List.length_take_of_le (Nat.le_of_not_lt enough)
    refine ⟨.literal (splitLine_unbroken split) (announced_iff.mp (by rw [octets, trailer]))
      complete, ?_⟩
    conv => lhs; rw [splitLine_join split, ← List.take_append_drop size after, joined]
    simp only [List.append_assoc]

theorem firstResponse_iff {stream text rest : Bytes} :
    firstResponse stream = some (text, rest) ↔
    CompleteResponse text ∧ stream = text ++ crlf ++ rest := by
  refine ⟨complete_of_first, ?_⟩
  rintro ⟨complete, rfl⟩
  exact complete.first rest

def responses : Cutter UInt8 Bytes where
  cut := firstResponse
  shrinks := firstResponse_shrinks
  stable := firstResponse_append

/-- The responses of a stream, framed in one shot. -/
def framing (stream : Bytes) : List Bytes := (responses.drain stream).1

/-- The stream consists of the responses, each with its CRLF, and of a rest that does not begin with
    a complete one. -/
structure Framed (stream : Bytes) (texts : List Bytes) : Prop where
  complete : ∀ text ∈ texts, CompleteResponse text
  whole : ∃ rest, stream = texts.flatMap (· ++ crlf) ++ rest ∧
    ∀ text more, CompleteResponse text → rest ≠ text ++ crlf ++ more

theorem framed_framing (stream : Bytes) : Framed stream (framing stream) := by
  rw [framing]
  induction stream using Cutter.drain.induct responses with
  | case1 stream waits =>
    rw [Cutter.drain_of_waiting waits]
    refine ⟨List.forall_mem_nil _, stream, rfl, fun text more complete same => ?_⟩
    subst same
    cases waits.symm.trans (complete.first more)
  | case2 stream text rest found _ ih =>
    rw [Cutter.drain_of_cut found]
    obtain ⟨complete, rfl⟩ := firstResponse_iff.mp found
    obtain ⟨left, whole, waits⟩ := ih.whole
    refine ⟨List.forall_mem_cons.mpr ⟨complete, ih.complete⟩, left, ?_, waits⟩
    rw [List.flatMap_cons, List.append_assoc (text ++ crlf), ← whole]

end Bkmail
