import Bkmail.Command.Progress
import Bkmail.Response.Readers
import Mathlib.Logic.Function.Iterate

namespace Bkmail

namespace Astring

/-! The reader of a server that takes what it gets: any byte that stays on its line in a quoted
string, any octets in a literal, and the two forms of the literal marker. -/

def readOctets (text : Bytes) : Option (Bytes × Bytes) :=
  let behind := text.dropWhile isDigit
  match (Cursor.tryConsume (byte '+') behind).getD behind with
  | brace :: cr :: lf :: octets =>
    let count := decimalValue (text.takeWhile isDigit)
    if brace == byte '\x7d' && cr == byte '\r' && lf == byte '\n' && count ≤ octets.length then
      some (octets.take count, octets.drop count)
    else none
  | _ => none

def readAny : Bytes → Option (Bytes × Bytes)
  | [] => none
  | c :: rest =>
    if c == byte '"' then
      match Cursor.readQuotedBody rest with
      | (some value, after) => some (value, after)
      | (none, _) => none
    else if c == byte '\x7b' then readOctets rest
    else if isAstringChar c then some (c :: rest.takeWhile isAstringChar, rest.dropWhile isAstringChar)
    else none

theorem readAny_atom {v text : Bytes} (safe : atomSafe v = true) (stops : Stops isAstringChar text) :
    readAny (v ++ text) = some (v, text) := by
  have all : ∀ c ∈ v, isAstringChar c = true :=
    fun c member => (atomSafe_astringChar c (atomSafe_chars safe c member)).1
  have filled : v ≠ [] := fun empty => by simp [empty, atomSafe] at safe
  obtain ⟨c, rest, rfl⟩ := List.exists_cons_of_ne_nil filled
  obtain ⟨plain, -, noQuote, noBrace⟩ :=
    atomSafe_astringChar c (atomSafe_chars safe c List.mem_cons_self)
  have tail : ∀ c ∈ rest, isAstringChar c = true :=
    fun c member => all c (List.mem_cons_of_mem _ member)
  rw [List.cons_append, readAny, if_neg (by simpa using noQuote), if_neg (by simpa using noBrace),
    if_pos plain, takeWhile_run tail stops, dropWhile_run tail stops]

theorem readAny_quoted {v : Bytes} (inside : OneLine v) (text : Bytes) :
    readAny (appendQuoted v ++ text) = some (v, text) := by
  have read := Cursor.readQuotedBody_escaped inside text
  rw [appendQuoted_append, readAny, if_pos (by decide)]
  change (match Cursor.readQuotedBody (v.flatMap escape ++ byte '"' :: text) with
    | (some value, after) => some (value, after)
    | (none, _) => none) = _
  rw [show Cursor.readQuotedBody (v.flatMap escape ++ byte '"' :: text) = (some v, text) from read]

theorem readAny_literal (plus : Bool) (v text : Bytes) :
    readAny (literalMarker plus v.length ++ (v ++ text)) = some (v, text) := by
  have digits := decimal_digits v.length
  have read (tail : Bytes) (outside : Stops isDigit tail) :
      (decimal v.length ++ tail).takeWhile isDigit = decimal v.length ∧
      (decimal v.length ++ tail).dropWhile isDigit = tail :=
    ⟨takeWhile_run digits outside, dropWhile_run digits outside⟩
  have layout : literalMarker plus v.length ++ (v ++ text) = byte '\x7b' :: (decimal v.length ++
      ((if plus then [byte '+'] else []) ++ byte '\x7d' :: byte '\r' :: byte '\n' :: (v ++ text))) := by
    simp [literalMarker, ascii]
  rw [layout, readAny, if_neg (by decide), if_pos (by decide), readOctets]
  cases plus with
  | true =>
    obtain ⟨front, behind⟩ :=
      read (byte '+' :: byte '\x7d' :: byte '\r' :: byte '\n' :: (v ++ text)) (.cons (by decide) _)
    simp only [if_true, List.cons_append, List.nil_append, front, behind, Cursor.tryConsume_self,
      Option.getD_some, decimalValue_decimal]
    simp
  | false =>
    obtain ⟨front, behind⟩ :=
      read (byte '\x7d' :: byte '\r' :: byte '\n' :: (v ++ text)) (.cons (by decide) _)
    have noPlus := Cursor.tryConsume_of_ne (by decide : byte '\x7d' ≠
      byte '+') (byte '\r' :: byte '\n' :: (v ++ text))
    simp only [Bool.false_eq_true, if_false, List.nil_append, front, behind, noPlus, Option.getD_none,
      decimalValue_decimal]
    simp

end Astring

namespace Segmented

def spans : Nat → List Bytes → List (Nat × Nat)
  | _, [] => []
  | start, piece :: rest => (start, start + piece.length) :: spans (start + piece.length) rest

theorem spans_append (start : Nat) (pieces more : List Bytes) :
    spans start (pieces ++ more) =
    spans start pieces ++ spans (start + pieces.flatten.length) more := by
  induction pieces generalizing start with
  | nil => rfl
  | cons piece pieces ih =>
    rw [List.cons_append, spans, spans, ih, List.flatten_cons, List.length_append, Nat.add_assoc,
      List.cons_append]

@[simp] theorem length_spans (start : Nat) (pieces : List Bytes) :
    (spans start pieces).length = pieces.length := by
  induction pieces generalizing start with
  | nil => rfl
  | cons piece pieces ih => rw [spans, List.length_cons, ih, List.length_cons]

theorem slice_spans (front : Bytes) (pieces : List Bytes) (after : Bytes) :
    (spans front.length pieces).map (slice (front ++ pieces.flatten ++ after)) = pieces := by
  induction pieces generalizing front with
  | nil => rfl
  | cons piece pieces ih =>
    have tail := ih (front ++ piece)
    have first : slice (front ++ (piece ++ pieces.flatten) ++ after) (front.length,
        front.length + piece.length) = piece := by
      simp [slice]
    rw [List.length_append, List.append_assoc front piece] at tail
    rw [spans, List.map_cons, List.flatten_cons, first, tail]

theorem onContinuation_iterate (c : Segmented) (within : c.unlocked ≤ c.seg.length) (k : Nat) :
    (onContinuation^[k] c).unlocked = min (c.unlocked + k) c.seg.length ∧
    (onContinuation^[k] c).seg = c.seg := by
  induction k with
  | zero => exact ⟨(Nat.min_eq_left within).symm, rfl⟩
  | succ k ih =>
    obtain ⟨unlocked, seg⟩ := ih
    rw [Function.iterate_succ_apply', onContinuation, unlocked, seg]
    by_cases locked : min (c.unlocked + k) c.seg.length < c.seg.length
    · rw [if_pos locked]
      refine ⟨?_, rfl⟩
      simp only
      omega
    · rw [if_neg locked]
      refine ⟨?_, seg⟩
      omega

end Segmented

open Segmented (spans)

namespace LoginCommand

/-- The value is neither an atom nor does it stay on its line. -/
def needsLiteral (v : Bytes) : Bool := !atomSafe v && v.any fun c => c == byte '\r' || c == byte '\n'

def literals (c : LoginCommand) : List Bytes := [c.userName, c.password].filter needsLiteral

def argText (literalPlus : Bool) (v : Bytes) : Bytes :=
  if atomSafe v then v
  else if needsLiteral v then Astring.literalMarker literalPlus v.length ++ v
  else appendQuoted v

/-- The segments that are closed, and the text of the one that is being written. -/
structure Pieces where
  closed : List Bytes := []
  opened : Bytes

def Pieces.write (p : Pieces) (more : Bytes) : Pieces := { p with opened := p.opened ++ more }

def Pieces.arg (literalPlus : Bool) (v : Bytes) (p : Pieces) : Pieces :=
  if needsLiteral v then
    { closed := p.closed ++ [p.opened ++ Astring.literalMarker literalPlus v.length], opened := v }
  else p.write (argText literalPlus v)

structure Rendering.Holds (r : Rendering) (p : Pieces) : Prop where
  wire : r.wire = p.closed.flatten ++ p.opened
  seg : r.seg = spans 0 p.closed
  segBegin : r.segBegin = p.closed.flatten.length
  walls : r.walls = p.closed.length

namespace Rendering.Holds

variable {r : Rendering} {p : Pieces}

theorem write (holds : r.Holds p) (more : Bytes) : Rendering.Holds { r with wire := r.wire ++ more }
    (p.write more) :=
  ⟨by rw [holds.wire, List.append_assoc, Pieces.write], holds.seg, holds.segBegin, holds.walls⟩

theorem close (holds : r.Holds p) (few : p.closed.length < 4) :
    (closeSegment r).wire = (p.closed ++ [p.opened]).flatten ∧
    (closeSegment r).seg = spans 0 (p.closed ++ [p.opened]) ∧
      (closeSegment r).segBegin = (p.closed ++ [p.opened]).flatten.length ∧
      (closeSegment r).walls = p.closed.length := by
  have wire : r.wire = (p.closed ++ [p.opened]).flatten := by simp [holds.wire]
  have room : r.seg.length < 4 := by rwa [holds.seg, Segmented.length_spans]
  refine ⟨wire, ?_, congrArg List.length wire, holds.walls⟩
  rw [closeSegment, if_pos room, holds.seg, Segmented.spans_append, holds.segBegin, holds.wire]
  simp [spans]

theorem arg (holds : r.Holds p) (few : p.closed.length < 4) (literalPlus : Bool) (v : Bytes) :
    (appendArg literalPlus v r).Holds (p.arg literalPlus v) := by
  rw [appendArg, Pieces.arg, argText, needsLiteral]
  by_cases safe : atomSafe v = true
  · simp only [safe, if_true, Bool.not_true, Bool.false_and, Bool.false_eq_true, if_false]
    exact holds.write v
  · by_cases broken : v.any (fun c => c == byte '\r' || c == byte '\n') = true
    · simp only [safe, broken, Bool.not_true, Bool.false_eq_true, if_false, Bool.not_false,
        Bool.true_and, if_true]
      obtain ⟨wire, seg, segBegin, walls⟩ :=
        (holds.write (Astring.literalMarker literalPlus v.length)).close few
      have count : (p.closed ++ [p.opened ++ Astring.literalMarker literalPlus v.length]).length =
          p.closed.length + 1 := by
        simp
      exact ⟨congrArg (· ++ v) wire, seg, segBegin, (congrArg (· + 1) walls).trans count.symm⟩
    · simp only [safe, broken, Bool.false_eq_true, if_false, Bool.not_false, Bool.and_false, if_true]
      exact holds.write (appendQuoted v)

end Rendering.Holds

def pieces (c : LoginCommand) (tag : Tag) : Pieces :=
  let user := Pieces.arg c.literalPlus c.userName { opened := tag ++ ascii " LOGIN " }
  (Pieces.arg c.literalPlus c.password (user.write [byte ' '])).write crlf

theorem Pieces.arg_closed (literalPlus : Bool) (v : Bytes) (p : Pieces) :
    (p.arg literalPlus v).closed.length = p.closed.length + ([v].filter needsLiteral).length := by
  rw [arg]
  by_cases literal : needsLiteral v = true <;> simp [literal, write]

theorem pieces_closed (c : LoginCommand) (tag : Tag) :
    (c.pieces tag).closed.length = c.literals.length := by
  have both : c.literals.length = ([c.userName].filter needsLiteral).length +
      ([c.password].filter needsLiteral).length := by
    rw [← List.length_append, ← List.filter_append]
    rfl
  have user := Pieces.arg_closed c.literalPlus c.userName { opened := tag ++ ascii " LOGIN " }
  have password := Pieces.arg_closed c.literalPlus c.password
    (.write (Pieces.arg c.literalPlus c.userName { opened := tag ++ ascii " LOGIN " }) [byte ' '])
  simp only [pieces, Pieces.write] at user password ⊢
  rw [password, user, both, List.length_nil, Nat.zero_add]

theorem literals_few (c : LoginCommand) : c.literals.length ≤ 2 := List.length_filter_le _ _

def segmentTexts (c : LoginCommand) (tag : Tag) : List Bytes :=
  (c.pieces tag).closed ++ [(c.pieces tag).opened]

theorem render_texts (c : LoginCommand) (tag : Tag) :
    (c.render tag).wire = (c.segmentTexts tag).flatten ∧
    (c.render tag).seg = spans 0 (c.segmentTexts tag) ∧
      (c.rendering tag).walls = c.literals.length := by
  have start :
    Rendering.Holds { wire := tag ++ ascii " LOGIN " } { opened := tag ++ ascii " LOGIN " } :=
    ⟨rfl, rfl, rfl, rfl⟩
  have counted := c.pieces_closed tag
  have few := c.literals_few
  have user := start.arg (by simp) c.literalPlus c.userName
  have one := Pieces.arg_closed c.literalPlus c.userName { opened := tag ++ ascii " LOGIN " }
  have atMost : ([c.userName].filter needsLiteral).length ≤ 1 := List.length_filter_le _ _
  have password :=
    (user.write [byte ' ']).arg (by simp only [Pieces.write, List.length_nil] at one ⊢; omega)
    c.literalPlus c.password
  obtain ⟨wire, seg, -, walls⟩ :=
    (password.write crlf).close (Nat.lt_of_le_of_lt (Nat.le_of_eq counted) (by omega))
  exact ⟨wire, seg, walls.trans counted⟩

theorem segments_texts (c : LoginCommand) (tag : Tag) :
    (c.render tag).segments = c.segmentTexts tag := by
  obtain ⟨wire, seg, -⟩ := c.render_texts tag
  have sliced := Segmented.slice_spans [] (c.segmentTexts tag) []
  rw [Segmented.segments, wire, seg]
  simpa using sliced

/-- What a server reads: the tag, the name of the command and two arguments, to the end of the
    line. -/
def readBack (tag : Tag) (wire : Bytes) : Option (Bytes × Bytes) := do
  if wire.take (tag ++ ascii " LOGIN ").length = tag ++ ascii " LOGIN " then
    let (user, text) ← Astring.readAny (wire.drop (tag ++ ascii " LOGIN ").length)
    let (password, text) ← Astring.readAny (← Cursor.tryConsume (byte ' ') text)
    if text = crlf then some (user, password) else none
  else none

theorem readAny_argText (literalPlus : Bool) (v : Bytes) {text : Bytes}
    (stops : Stops isAstringChar text) :
    Astring.readAny (argText literalPlus v ++ text) = some (v, text) := by
  rw [argText]
  by_cases safe : atomSafe v = true
  · rw [if_pos safe, Astring.readAny_atom safe stops]
  · rw [if_neg safe]
    by_cases literal : needsLiteral v = true
    · rw [if_pos literal, List.append_assoc, Astring.readAny_literal]
    · rw [if_neg literal]
      have inside : OneLine v := by
        intro c member
        have unbroken :
          ∀ c ∈ v, ¬c = byte '\r' ∧ ¬c = byte '\n' := by simpa [needsLiteral, safe] using literal
        exact unbroken c member
      exact Astring.readAny_quoted inside text

theorem Pieces.arg_flatten (literalPlus : Bool) (v : Bytes) (p : Pieces) :
    (p.arg literalPlus v).closed.flatten ++ (p.arg literalPlus v).opened =
      p.closed.flatten ++ p.opened ++ argText literalPlus v := by
  rw [arg]
  by_cases literal : needsLiteral v = true
  · have noAtom : atomSafe v = false := by
      simp only [needsLiteral, Bool.and_eq_true, Bool.not_eq_true'] at literal
      exact literal.1
    simp [literal, argText, noAtom]
  · simp [literal, write]

theorem wire_arguments (c : LoginCommand) (tag : Tag) : (c.render tag).wire =
    tag ++ ascii " LOGIN " ++ (argText c.literalPlus c.userName ++ byte ' ' ::
    (argText c.literalPlus c.password ++ crlf)) := by
  have user := Pieces.arg_flatten c.literalPlus c.userName { opened := tag ++ ascii " LOGIN " }
  have password := Pieces.arg_flatten c.literalPlus c.password
    (.write (Pieces.arg c.literalPlus c.userName { opened := tag ++ ascii " LOGIN " }) [byte ' '])
  rw [(c.render_texts tag).1, segmentTexts, List.flatten_append, pieces]
  simp only [Pieces.write, List.flatten_nil, List.nil_append, List.flatten_cons,
    List.append_nil] at user password ⊢
  rw [← List.append_assoc, password, ← List.append_assoc, user]
  simp

/-- The segments are the wire text cut at the literals, a server reads the two values from it, and
    as many continuations are due as there are literals. -/
structure Encoded (c : LoginCommand) (tag : Tag) : Prop where
  covers : (c.render tag).seg = spans 0 (c.render tag).segments ∧ (c.render tag).segments.flatten =
    (c.render tag).wire
  reads : readBack tag (c.render tag).wire = some (c.userName, c.password)
  marked : ∀ i segment next, (c.render tag).segments[i]? = some segment →
    (c.render tag).segments[i + 1]? = some next →
    ∃ v, c.literals[i]? = some v ∧ Astring.literalMarker c.literalPlus v.length <:+ segment ∧ v <+: next
  released : c.literalPlus = false → ∀ k,
    (Segmented.onContinuation^[k] (c.render tag)).awaitsContinuation = false ↔ c.literals.length ≤ k

theorem reads_back (c : LoginCommand) (tag : Tag) :
    readBack tag (c.render tag).wire = some (c.userName, c.password) := by
  have space (rest : Bytes) : Stops isAstringChar (byte ' ' :: rest) := .cons (by decide) rest
  have line : Stops isAstringChar crlf := .cons (by decide) [byte '\n']
  rw [readBack, c.wire_arguments tag, List.take_left' rfl, List.drop_left' rfl, if_pos rfl,
    readAny_argText c.literalPlus c.userName (space _)]
  simp only [Option.bind_eq_bind, Option.bind_some, Cursor.tryConsume_self,
    readAny_argText c.literalPlus c.password line,
    if_true]

theorem marked_literals (c : LoginCommand) (tag : Tag) (i : Nat) (segment next : Bytes)
    (this : (c.segmentTexts tag)[i]? = some segment)
    (behind : (c.segmentTexts tag)[i + 1]? = some next) :
    ∃ v, c.literals[i]? = some v ∧ Astring.literalMarker c.literalPlus v.length <:+ segment ∧
    v <+: next := by
  by_cases user : needsLiteral c.userName = true
  · by_cases password : needsLiteral c.password = true
    · simp only [segmentTexts, pieces, Pieces.arg, user, password, if_true, Pieces.write,
        List.nil_append, List.cons_append] at this behind
      simp only [literals, List.filter_cons, user, password, if_true, List.filter_nil]
      rcases i with _ | _ | i
      · cases this
        cases behind
        refine ⟨c.userName, rfl, List.suffix_append _ _, ?_⟩
        rw [List.append_assoc]
        exact List.prefix_append _ _
      · cases this
        cases behind
        exact ⟨c.password, rfl, List.suffix_append _ _, List.prefix_append _ _⟩
      · cases behind
    · simp only [segmentTexts, pieces, Pieces.arg, user, password, if_true, if_false, Pieces.write,
        List.nil_append, List.cons_append, Bool.false_eq_true] at this behind
      simp only [literals, List.filter_cons, user, password, if_true, if_false, List.filter_nil,
        Bool.false_eq_true]
      rcases i with _ | i
      · cases this
        cases behind
        refine ⟨c.userName, rfl, List.suffix_append _ _, ?_⟩
        rw [List.append_assoc, List.append_assoc]
        exact List.prefix_append _ _
      · cases behind
  · by_cases password : needsLiteral c.password = true
    · simp only [segmentTexts, pieces, Pieces.arg, user, password, if_true, if_false, Pieces.write,
        List.nil_append, List.cons_append, Bool.false_eq_true] at this behind
      simp only [literals, List.filter_cons, user, password, if_true, if_false, List.filter_nil,
        Bool.false_eq_true]
      rcases i with _ | i
      · cases this
        cases behind
        exact ⟨c.password, rfl, List.suffix_append _ _, List.prefix_append _ _⟩
      · cases behind
    · simp only [segmentTexts, pieces, Pieces.arg, user, password, if_false, Pieces.write,
        List.nil_append, Bool.false_eq_true] at behind
      cases behind

theorem released_iff (c : LoginCommand) (tag : Tag) (synchronizing : c.literalPlus = false) (k : Nat) :
    (Segmented.onContinuation^[k] (c.render tag)).awaitsContinuation = false ↔
    c.literals.length ≤ k := by
  obtain ⟨-, seg, walls⟩ := c.render_texts tag
  have length : (c.render tag).seg.length = c.literals.length + 1 := by
    rw [seg, Segmented.length_spans, segmentTexts, List.length_append, c.pieces_closed tag]
    rfl
  have unlocked : (c.render tag).unlocked = 1 := by
    change (if (c.rendering tag).walls = 0 || c.literalPlus then (c.render tag).seg.length else 1) = 1
    rw [walls, synchronizing, length]
    by_cases none : c.literals.length = 0 <;> simp [none]
  obtain ⟨released, same⟩ := (c.render tag).onContinuation_iterate (by omega) k
  rw [Segmented.awaitsContinuation, released, same, unlocked, length, decide_eq_false_iff_not]
  omega

theorem login_encoded (c : LoginCommand) (tag : Tag) : c.Encoded tag := by
  have texts := c.segments_texts tag
  obtain ⟨wire, seg, -⟩ := c.render_texts tag
  refine ⟨⟨?_, ?_⟩, c.reads_back tag, fun i segment next this behind => ?_, c.released_iff tag⟩
  · rw [texts, seg]
  · rw [texts, wire]
  · rw [texts] at this behind
    exact c.marked_literals tag i segment next this behind

end LoginCommand
end Bkmail
