import Bkmail.Automaton.Framing
import Bkmail.Wire.Tags

namespace Bkmail

def crlfIndex : Bytes → Option Nat
  | c :: d :: rest =>
    if c == byte '\r' && d == byte '\n' then some 0 else (crlfIndex (d :: rest)).map (· + 1)
  | _ => none

theorem crlfIndex_bound {text : Bytes} {i : Nat} (found : crlfIndex text = some i) :
    i + 2 ≤ text.length := by
  induction text generalizing i with
  | nil => simp [crlfIndex] at found
  | cons c rest ih =>
    match rest with
    | [] => simp [crlfIndex] at found
    | d :: rest =>
      simp only [crlfIndex] at found
      split at found
      · obtain rfl := Option.some.inj found
        simp
      · obtain ⟨j, later, rfl⟩ := Option.map_eq_some_iff.mp found
        have bound := ih later
        simp only [List.length_cons] at bound ⊢
        omega

inductive ScanMode where
  | line | literal
  deriving DecidableEq, Repr

/-- The cursor of `response_lexer` over the committed bytes of the read buffer. -/
structure Lexer where
  mode : ScanMode := .line
  scanPos : Nat := 0
  lineStart : Nat := 0
  literalRemaining : Nat := 0
  responseEnd : Nat := 0
  deriving DecidableEq, Repr

namespace Lexer

/-- The 64-bit accumulation of a literal count, which gives up where it would overflow. -/
def literalCount : Nat → Bytes → Option Nat
  | value, [] => some value
  | value, c :: digits =>
    let d := c.toNat - 48
    if value > (2 ^ 64 - 1 - d) / 10 then none else literalCount (value * 10 + d) digits

def literalTrailer (line : Bytes) : Option Nat :=
  match line.reverse with
  | [] => none
  | brace :: back =>
    if line.length < 3 || brace != byte '\x7d' then none
    else
      let back := if back.head? == some (byte '+') then back.tail else back
      let digits := (back.takeWhile isDigit).reverse
      match back.dropWhile isDigit with
      | [] => none
      | marker :: before =>
        if digits.isEmpty || marker != byte '\x7b' then none
        else if before.head?.any fun c => c != byte ' ' && c != byte '~' then none
        else literalCount 0 digits

def nextCompleteResponse (lexer : Lexer) (buffer : Bytes) : Option Bytes × Lexer :=
  match _inMode : lexer.mode with
  | .literal =>
    let available := buffer.length - lexer.scanPos
    if available < lexer.literalRemaining then (none, lexer)
    else
      let resume := lexer.scanPos + lexer.literalRemaining
      nextCompleteResponse
        { lexer with scanPos := resume, literalRemaining := 0, mode := .line, lineStart := resume } buffer
  | .line =>
    match found : crlfIndex (buffer.drop lexer.scanPos) with
    | none =>
      (none, { lexer with
        scanPos := if buffer.length > lexer.lineStart then buffer.length - 1 else lexer.lineStart })
    | some i =>
      let eol := lexer.scanPos + i
      let line := (buffer.drop lexer.lineStart).take (eol - lexer.lineStart)
      match literalTrailer line with
      | some size =>
        have := crlfIndex_bound found
        nextCompleteResponse
          { lexer with literalRemaining := size, scanPos := eol + 2, mode := .literal } buffer
      | none => (some (buffer.take eol), { lexer with responseEnd := eol + 2 })
termination_by 2 * (buffer.length - lexer.scanPos) + if lexer.mode = .literal then 1 else 0
decreasing_by
  · simp only [_inMode, reduceIte]
    omega
  · simp only [List.length_drop] at this
    simp only [_inMode, reduceCtorEq, reduceIte]
    omega

def consumeResponse (lexer : Lexer) (buffer : Bytes) : Lexer × Bytes :=
  ({}, buffer.drop lexer.responseEnd)

theorem responseEnd_bound {lexer : Lexer} {buffer text : Bytes}
    (extracted : (lexer.nextCompleteResponse buffer).1 = some text) :
    2 ≤ (lexer.nextCompleteResponse buffer).2.responseEnd ∧
      (lexer.nextCompleteResponse buffer).2.responseEnd ≤ buffer.length := by
  fun_induction nextCompleteResponse lexer buffer with
  | case1 => cases extracted
  | case2 _ _ _ _ _ ih => exact ih extracted
  | case3 => cases extracted
  | case4 _ _ _ _ _ _ _ _ _ ih => exact ih extracted
  | case5 _ _ i found =>
    have bound := crlfIndex_bound found
    simp only [List.length_drop] at bound
    dsimp only
    omega

/-- The extraction loop of `on_read`: every complete response, then the lexer and the bytes
    that stay behind. -/
def drain (lexer : Lexer) (buffer : Bytes) : List Bytes × Lexer × Bytes :=
  match extracted : lexer.nextCompleteResponse buffer with
  | (none, waiting) => ([], waiting, buffer)
  | (some text, finished) =>
    have := responseEnd_bound (congrArg Prod.fst extracted)
    let consumed := finished.consumeResponse buffer
    let (texts, state) := drain consumed.1 consumed.2
    (text :: texts, state)
termination_by buffer.length
decreasing_by
  simp only [extracted] at this
  simp only [consumeResponse, List.length_drop]
  omega

def onRead (pump : Lexer × Bytes) (chunk : Bytes) : List Bytes × Lexer × Bytes :=
  pump.1.drain (pump.2 ++ chunk)

def received (chunks : List Bytes) : List Bytes := Automaton.outputs onRead ({}, []) chunks

end Lexer
end Bkmail
