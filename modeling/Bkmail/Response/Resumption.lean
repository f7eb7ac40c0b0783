import Bkmail.Response.Trailer

namespace Bkmail

open Automaton

theorem splitLine_eq (text : Bytes) :
    splitLine text = (crlfIndex text).map fun i => (text.take i, text.drop (i + 2)) := by
  induction text with
  | nil => rfl
  | cons c rest ih =>
    match rest with
    | [] => rfl
    | d :: rest =>
      simp only [splitLine, crlfIndex]
      split
      · rfl
      · rw [ih, Option.map_map, Option.map_map]
        rfl

theorem crlfIndex_resume {text : Bytes} (nonempty : text ≠ []) (scanned : crlfIndex text = none)
    (more : Bytes) :
    crlfIndex (text ++ more) =
      (crlfIndex (text.drop (text.length - 1) ++ more)).map (· + (text.length - 1)) := by
  induction text with
  | nil => exact absurd rfl nonempty
  | cons c rest ih =>
    match rest with
    | [] => simp
    | d :: rest =>
      simp only [crlfIndex] at scanned
      split at scanned
      · cases scanned
      · next other =>
        have later := ih (by simp) (Option.map_eq_none_iff.mp scanned)
        simp only [List.cons_append, List.length_cons, Nat.add_sub_cancel] at later ⊢
        rw [crlfIndex, if_neg other, later, Option.map_map]
        rfl

namespace Lexer

/-- What the reference framing finds in a stream, told from where the lexer stands in it. -/
def ahead (lexer : Lexer) (stream : Bytes) : Option (Bytes × Bytes) :=
  match lexer.mode with
  | .line => behind (stream.take lexer.lineStart) (firstResponse (stream.drop lexer.lineStart))
  | .literal =>
    let resume := lexer.scanPos + lexer.literalRemaining
    if stream.length < resume then none
    else behind (stream.take resume) (firstResponse (stream.drop resume))

/-- The lexer stands at a place in the committed bytes from which the reference framing of every
    continuation can be resumed. -/
structure Tracks (lexer : Lexer) (buffer : Bytes) : Prop where
  unreturned : lexer.responseEnd = 0
  committed : lexer.scanPos ≤ buffer.length
  started : lexer.mode = .line → lexer.lineStart ≤ lexer.scanPos
  scanned : lexer.mode = .line → ∀ more, crlfIndex ((buffer ++ more).drop lexer.lineStart) =
    (crlfIndex ((buffer ++ more).drop lexer.scanPos)).map (· + (lexer.scanPos - lexer.lineStart))
  resumes : ∀ more, firstResponse (buffer ++ more) = lexer.ahead (buffer ++ more)

variable {lexer : Lexer} {buffer : Bytes}

theorem Tracks.fresh (buffer : Bytes) : Tracks {} buffer where
  unreturned := rfl
  committed := Nat.zero_le _
  started _ := Nat.le_refl _
  scanned _ more := by simp
  resumes more := by simp [ahead, behind_nil]

theorem Tracks.commit (tracks : Tracks lexer buffer) (chunk : Bytes) :
    Tracks lexer (buffer ++ chunk) where
  unreturned := tracks.unreturned
  committed := by simpa using Nat.le_trans tracks.committed (Nat.le_add_right _ _)
  started := tracks.started
  scanned inLine more := by simpa only [List.append_assoc] using tracks.scanned inLine (chunk ++ more)
  resumes more := by simpa only [List.append_assoc] using tracks.resumes (chunk ++ more)

theorem Tracks.split (tracks : Tracks lexer buffer) (inLine : lexer.mode = .line) {i : Nat}
    (found : crlfIndex (buffer.drop lexer.scanPos) = some i) :
    splitLine (buffer.drop lexer.lineStart) =
      some ((buffer.drop lexer.lineStart).take (lexer.scanPos + i - lexer.lineStart),
        buffer.drop (lexer.scanPos + i + 2)) := by
  have started := tracks.started inLine
  have index := tracks.scanned inLine []
  rw [List.append_nil, found, Option.map_some] at index
  have offset : i + (lexer.scanPos - lexer.lineStart) = lexer.scanPos + i - lexer.lineStart := by omega
  have behindLine : lexer.lineStart + (i + (lexer.scanPos - lexer.lineStart) + 2) =
    lexer.scanPos + i + 2 := by omega
  rw [splitLine_eq, index, Option.map_some, List.drop_drop, behindLine, offset]

theorem Tracks.skip (tracks : Tracks lexer buffer) (inLiteral : lexer.mode = .literal)
    (enough : ¬ buffer.length - lexer.scanPos < lexer.literalRemaining) :
    let resume := lexer.scanPos + lexer.literalRemaining
    Tracks { lexer with scanPos := resume, literalRemaining := 0, mode := .line, lineStart := resume } buffer := by
  have committed := tracks.committed
  refine ⟨tracks.unreturned, by dsimp only; omega, fun _ => Nat.le_refl _, fun _ more => by simp, fun more => ?_⟩
  rw [tracks.resumes more]
  simp only [ahead, inLiteral]
  rw [if_neg (by simp only [List.length_append]; omega)]

theorem Tracks.pause (tracks : Tracks lexer buffer) (inLine : lexer.mode = .line)
    (missing : crlfIndex (buffer.drop lexer.scanPos) = none) :
    Tracks { lexer with
      scanPos := if buffer.length > lexer.lineStart then buffer.length - 1
        else lexer.lineStart } buffer := by
  have committed := tracks.committed
  have started := tracks.started inLine
  have none := tracks.scanned inLine []
  rw [List.append_nil, missing, Option.map_none] at none
  refine ⟨tracks.unreturned, ?_, fun _ => ?_, fun _ more => ?_, fun more => ?_⟩
  · dsimp only
    split <;> omega
  · dsimp only
    split <;> omega
  · dsimp only
    split
    · next longer =>
      have nonempty : buffer.drop lexer.lineStart ≠ [] := by simpa using longer
      have resumed := crlfIndex_resume nonempty none more
      rw [List.length_drop, List.drop_drop] at resumed
      have last :
        lexer.lineStart + (buffer.length - lexer.lineStart - 1) = buffer.length - 1 := by omega
      have offset :
        buffer.length - lexer.lineStart - 1 = buffer.length - 1 - lexer.lineStart := by omega
      rw [last, offset] at resumed
      rw [List.drop_append_of_le_length (by omega), List.drop_append_of_le_length (by omega), resumed]
    · simp
  · rw [tracks.resumes more]
    simp only [ahead, inLine]

theorem Tracks.announce (tracks : Tracks lexer buffer) (inLine : lexer.mode = .line) {i size : Nat}
    (found : crlfIndex (buffer.drop lexer.scanPos) = some i)
    (trailer : literalTrailer ((buffer.drop lexer.lineStart).take (lexer.scanPos + i - lexer.lineStart)) = some size) :
    Tracks { lexer with literalRemaining := size, scanPos := lexer.scanPos + i + 2, mode := .literal } buffer := by
  have committed := tracks.committed
  have started := tracks.started inLine
  have bound := crlfIndex_bound found
  rw [List.length_drop] at bound
  refine ⟨tracks.unreturned, by dsimp only; omega, by simp, by simp, fun more => ?_⟩
  have split := splitLine_append more (tracks.split inLine found)
  rw [← List.drop_append_of_le_length (by omega), ← List.drop_append_of_le_length (by omega)] at split
  rw [tracks.resumes more]
  simp only [ahead, inLine]
  rw [firstResponse_literal split (literalTrailer_eq _ ▸ trailer), List.take_add,
    take_of_splitLine split, List.length_drop, List.drop_drop]
  have reach : lexer.scanPos + i + 2 ≤ (buffer ++ more).length := by
    simp only [List.length_append]
    omega
  by_cases short : (buffer ++ more).length < lexer.scanPos + i + 2 + size
  · rw [if_pos short, if_pos (by omega)]
    rfl
  · rw [if_neg short, if_neg (by omega), behind_behind]
    simp only [List.append_assoc]

theorem Tracks.finish (tracks : Tracks lexer buffer) (inLine : lexer.mode = .line) {i : Nat}
    (found : crlfIndex (buffer.drop lexer.scanPos) = some i)
    (plain : literalTrailer
    ((buffer.drop lexer.lineStart).take (lexer.scanPos + i - lexer.lineStart)) = none) :
    firstResponse buffer =
    some (buffer.take (lexer.scanPos + i), buffer.drop (lexer.scanPos + i + 2)) := by
  have started := tracks.started inLine
  have here := tracks.resumes []
  simp only [List.append_nil, ahead, inLine] at here
  rw [here, firstResponse_line (tracks.split inLine found) (literalTrailer_eq _ ▸ plain)]
  have upTo : lexer.lineStart + (lexer.scanPos + i - lexer.lineStart) = lexer.scanPos + i := by omega
  simp only [behind, Option.map_some]
  rw [← List.take_add, upTo]

theorem Tracks.starve (tracks : Tracks lexer buffer) (inLine : lexer.mode = .line)
    (missing : crlfIndex (buffer.drop lexer.scanPos) = none) : firstResponse buffer = none := by
  have index := tracks.scanned inLine []
  have here := tracks.resumes []
  simp only [List.append_nil, ahead, inLine] at here
  rw [List.append_nil, missing, Option.map_none] at index
  rw [here, firstResponse_waiting (by rw [splitLine_eq, index, Option.map_none])]
  rfl

theorem Tracks.next (tracks : Tracks lexer buffer) :
    (∃ waiting, lexer.nextCompleteResponse buffer = (none, waiting) ∧
      firstResponse buffer = none ∧ Tracks waiting buffer) ∨
    ∃ text finished, lexer.nextCompleteResponse buffer = (some text, finished) ∧
      firstResponse buffer = some (text, (finished.consumeResponse buffer).2) := by
  fun_induction nextCompleteResponse lexer buffer with
  | case1 lexer inLiteral available short =>
    refine Or.inl ⟨lexer, rfl, ?_, tracks⟩
    have here := tracks.resumes []
    simp only [List.append_nil, ahead, inLiteral] at here
    rw [here, if_pos]
    have := tracks.committed
    omega
  | case2 lexer inLiteral available enough resume ih => exact ih (tracks.skip inLiteral enough)
  | case3 lexer inLine missing =>
    exact Or.inl ⟨_, rfl, tracks.starve inLine missing, tracks.pause inLine missing⟩
  | case4 lexer inLine i found eol line size trailer bound ih => exact ih (tracks.announce inLine found trailer)
  | case5 lexer inLine i found eol line plain => exact Or.inr ⟨_, _, rfl, tracks.finish inLine found plain⟩

theorem Tracks.drain (tracks : Tracks lexer buffer) :
    (lexer.drain buffer).1 = (responses.drain buffer).1 ∧
      (lexer.drain buffer).2.2 = (responses.drain buffer).2 ∧
      Tracks (lexer.drain buffer).2.1 (responses.drain buffer).2 := by
  fun_induction Lexer.drain lexer buffer with
  | case1 lexer buffer waiting extracted =>
    rcases tracks.next with ⟨paused, same, none, after⟩ | ⟨text, finished, same, -⟩
    · obtain ⟨-, rfl⟩ := Prod.mk.inj (extracted.symm.trans same)
      rw [Cutter.drain_of_waiting none]
      exact ⟨rfl, rfl, after⟩
    · cases extracted.symm.trans same
  | case2 lexer buffer text finished extracted _ consumed texts state later ih =>
    rcases tracks.next with ⟨paused, same, -⟩ | ⟨found, returned, same, first⟩
    · cases extracted.symm.trans same
    · cases extracted.symm.trans same
      have ended := ih (Tracks.fresh _)
      rw [later] at ended
      rw [Cutter.drain_of_cut first]
      exact ⟨congrArg _ ended.1, ended.2⟩

end Lexer

open Lexer

theorem received_eq_framing (chunks : List Bytes) : received chunks = framing chunks.flatten := by
  refine outputs_eq_drain responses onRead (fun pump left => pump.2 = left ∧ Tracks pump.1 left) ?_
    ⟨rfl, Tracks.fresh []⟩ (firstResponse_waiting rfl) chunks
  rintro ⟨lexer, buffer⟩ left chunk ⟨rfl, tracks⟩
  obtain ⟨texts, left, after⟩ := (tracks.commit chunk).drain
  exact ⟨texts, left, after⟩

/-- Two ways of cutting a stream into reads yield the same responses, those of the one-shot framing
    of the stream, which are the ones that the grammar has. -/
theorem framing_independent {stream : Bytes} {cutting recutting : List Bytes}
    (whole : cutting.flatten = stream) (rewhole : recutting.flatten = stream) :
    received cutting = received recutting ∧ received cutting = framing stream ∧
    Framed stream (received cutting) := by
  rw [received_eq_framing, received_eq_framing, whole, rewhole]
  exact ⟨rfl, rfl, framed_framing stream⟩

/-- A response with a literal, cut inside a CRLF, inside the literal and behind it. -/
theorem framing_independent_literal :
    received [ascii "* 1 FETCH (X \x7b4\x7d\r", ascii "\np\r", ascii "\nq)", ascii "\r\n"] =
        received [ascii "* 1 FETCH (X \x7b4\x7d\r\np\r\nq)\r\n"] ∧
      received [ascii "* 1 FETCH (X \x7b4\x7d\r", ascii "\np\r", ascii "\nq)", ascii "\r\n"] =
        framing (ascii "* 1 FETCH (X \x7b4\x7d\r\np\r\nq)\r\n") ∧
      Framed (ascii "* 1 FETCH (X \x7b4\x7d\r\np\r\nq)\r\n")
        (received [ascii "* 1 FETCH (X \x7b4\x7d\r", ascii "\np\r", ascii "\nq)", ascii "\r\n"]) :=
  framing_independent rfl rfl

end Bkmail
