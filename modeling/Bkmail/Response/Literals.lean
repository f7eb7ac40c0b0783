import Mathlib.Data.List.Chain
import Bkmail.Response.Resumption
import Bkmail.Response.Strings
import Bkmail.Response.Trailer

namespace Bkmail

open Automaton

/-- Where the grammar allows a string, a space or an opening parenthesis stands in front of it. -/
def Token.mayFollow (before after : Token) : Prop :=
  ∀ octets, after = .literal octets → before = .space ∨ before = .opening

theorem placed_append {front back : List Token} (placed : front.IsChain Token.mayFollow)
    (behind : back.IsChain Token.mayFollow) (text : ∀ octets, back.head? ≠ some (.literal octets)) :
    (front ++ back).IsChain Token.mayFollow := by
  refine List.isChain_append.mpr ⟨placed, behind, ?_⟩
  rintro _ _ token member octets rfl
  exact absurd member (text octets)

theorem placed_group {inner : List Token} (placed : inner.IsChain Token.mayFollow) :
    (Token.opening :: inner ++ [Token.closing]).IsChain Token.mayFollow :=
  placed_append (List.isChain_cons.mpr ⟨fun _ _ _ _ => Or.inr rfl, placed⟩) (by simp) (by simp)

theorem Phrase.placed (phrase : Phrase) : phrase.tokens.IsChain Token.mayFollow := by
  induction phrase with
  | word | literal | unit => simp [tokens, Token.mayFollow]
  | group inner ih => exact placed_group ih
  | spaced left right ihLeft ihRight =>
    exact placed_append ihLeft (List.isChain_cons.mpr ⟨fun _ _ _ _ => Or.inl rfl, ihRight⟩) (by simp)
  | adjoined left inner ihLeft ihInner =>
    rw [tokens, List.append_assoc]
    exact placed_append ihLeft (placed_group ihInner) (by simp)
  | suffixed left text ih => exact placed_append ih (by simp) (by simp)

def lastLine : Bytes → List Token → Bytes
  | line, [] => line
  | _, .literal _ :: rest => lastLine [] rest
  | line, token :: rest => lastLine (line ++ token.wire) rest

theorem lastLine_append (line : Bytes) (front back : List Token) :
    lastLine line (front ++ back) = lastLine (lastLine line front) back := by
  induction front generalizing line with
  | nil => rfl
  | cons token front ih => cases token <;> exact ih _

structure EndsWith (line : Bytes) (token : Token) : Prop where
  inside : ∀ c ∈ line, c ≠ byte '\r'
  space : token = .space → line.getLast? = some (byte ' ')
  opening : token = .opening → line.getLast? = some (byte '(')

theorem EndsWith.next {line : Bytes} {token following : Token} (ends : EndsWith line token)
    (text : ∀ octets, following ≠ .literal octets) : EndsWith (line ++ following.wire) following := by
  refine ⟨fun c member => ?_, ?_, ?_⟩
  · rcases List.mem_append.mp member with member | member
    · exact ends.inside c member
    · cases following with
      | text words => exact (words.inside c member).1
      | literal octets => exact absurd rfl (text octets)
      | _ => exact List.mem_singleton.mp member ▸ (by decide)
  · rintro rfl
    simp [Token.wire]
  · rintro rfl
    simp [Token.wire]

theorem EndsWith.literal (octets : Bytes) : EndsWith [] (.literal octets) := ⟨by simp, nofun, nofun⟩

theorem unbroken_of_inside {line : Bytes} (inside : ∀ c ∈ line, c ≠ byte '\r') : ¬ crlf <:+: line := by
  intro broken
  exact inside _ (broken.subset (by decide)) rfl

theorem marker_inside (n : Nat) : ∀ c ∈ marker n, c ≠ byte '\r' := by
  intro c member
  simp only [marker, List.mem_cons, List.mem_append, List.not_mem_nil, or_false] at member
  rcases member with rfl | member | rfl
  · decide
  · exact (LineText.digit_inside c (decimal_digits n c member)).1
  · decide

theorem EndsWith.unbroken {line : Bytes} {token : Token} (ends : EndsWith line token) (n : Nat) :
    ¬ crlf <:+: line ++ marker n := by
  refine unbroken_of_inside fun c member => ?_
  rcases List.mem_append.mp member with member | member
  · exact ends.inside c member
  · exact marker_inside n c member

/-- Behind a space every literal is recognised, and the response ends at its last line. -/
theorem complete_of_unopened {line : Bytes} {token : Token} {tokens : List Token}
    (ends : EndsWith line token)
    (placed : (token :: tokens).IsChain Token.mayFollow)
    (unopened : ∀ octets, ¬ [.opening, .literal octets] <:+: token :: tokens)
    (fits : ∀ octets, Token.literal octets ∈ tokens → octets.length < 2 ^ 64)
    (plain : announced (lastLine line tokens) = none) : CompleteResponse (line ++ onWire tokens) := by
  induction tokens generalizing line token with
  | nil => simpa [onWire] using CompleteResponse.line (unbroken_of_inside ends.inside) (announced_none_iff.mp plain)
  | cons next tokens ih =>
    obtain ⟨here, rest⟩ := List.isChain_cons_cons.mp placed
    have later : ∀ octets, ¬ [.opening, .literal octets] <:+: next :: tokens := fun octets inside =>
      unopened octets (inside.trans (List.suffix_cons _ _).isInfix)
    have fewer : ∀ octets, Token.literal octets ∈ tokens → octets.length < 2 ^ 64 :=
        fun octets member =>
      fits octets (List.mem_cons_of_mem _ member)
    by_cases text : ∀ octets, next ≠ .literal octets
    · have step :=
        ih (ends.next text) rest later fewer
        (by cases next <;> first | exact plain | exact absurd rfl (text _))
      simpa [onWire] using step
    · obtain ⟨octets, rfl⟩ := Classical.not_forall_not.mp text
      rcases here octets rfl with rfl | rfl
      · have trailer := announced_marker (n := octets.length)
          (fun c last => Or.inl (Option.some.inj (last.symm.trans (ends.space rfl))))
            (fits octets List.mem_cons_self)
        have tail := ih (.literal octets) rest later fewer plain
        have step :=
          CompleteResponse.literal (ends.unbroken octets.length) (announced_iff.mp trailer) tail
        simpa [onWire, Token.wire] using step
      · exact absurd ⟨[], tokens, rfl⟩ (unopened octets)

/-- A literal directly behind an opening parenthesis is not recognised: the response is cut off
    behind its marker. -/
theorem cut_short_of_opened {line : Bytes} {token : Token} {tokens : List Token}
    (ends : EndsWith line token)
    (placed : (token :: tokens).IsChain Token.mayFollow)
    (opened : ∃ octets, [.opening, .literal octets] <:+: token :: tokens)
    (fits : ∀ octets, Token.literal octets ∈ tokens → octets.length < 2 ^ 64) (following : Bytes) :
    ∃ text rest, firstResponse (line ++ onWire tokens ++ following) = some (text, rest) ∧
      text.length < (line ++ onWire tokens).length := by
  induction tokens generalizing line token with
  | nil =>
    obtain ⟨octets, inside⟩ := opened
    exact absurd inside.length_le (by simp)
  | cons next tokens ih =>
    obtain ⟨here, rest⟩ := List.isChain_cons_cons.mp placed
    have fewer : ∀ octets, Token.literal octets ∈ tokens → octets.length < 2 ^ 64 :=
        fun octets member =>
      fits octets (List.mem_cons_of_mem _ member)
    have later (other : ∀ octets, token = .opening → next ≠ .literal octets) :
        ∃ octets, [.opening, .literal octets] <:+: next :: tokens := by
      obtain ⟨octets, inside⟩ := opened
      rcases List.infix_cons_iff.mp inside with ⟨back, start⟩ | inside
      · obtain ⟨rfl, tail⟩ := List.cons.inj start
        exact absurd (List.cons.inj tail).1.symm (other octets rfl)
      · exact ⟨octets, inside⟩
    by_cases text : ∀ octets, next ≠ .literal octets
    · have step := ih (ends.next text) rest (later fun octets _ => text octets) fewer
      simpa [onWire] using step
    · obtain ⟨octets, rfl⟩ := Classical.not_forall_not.mp text
      have split :=
        splitLine_of_unbroken (ends.unbroken octets.length) (octets ++ onWire tokens ++ following)
      have layout : line ++ marker octets.length ++ crlf ++ (octets ++ onWire tokens ++ following) =
          line ++ onWire (.literal octets :: tokens) ++ following := by
        simp [onWire, Token.wire]
      rw [layout] at split
      rcases here octets rfl with rfl | rfl
      · have trailer := announced_marker (n := octets.length)
          (fun c last => Or.inl (Option.some.inj (last.symm.trans (ends.space rfl))))
            (fits octets List.mem_cons_self)
        obtain ⟨tail, left, found, shorter⟩ := ih (.literal octets) rest (later nofun) fewer
        refine ⟨line ++ marker octets.length ++ crlf ++ octets ++ tail, left, ?_, ?_⟩
        · rw [firstResponse_literal split trailer, if_neg (by simp), List.append_assoc octets,
            List.drop_left, List.take_left]
          rw [List.nil_append] at found
          rw [found]
          rfl
        · simp only [onWire, Token.wire, List.flatMap_cons, List.length_append,
            List.nil_append] at shorter ⊢
          omega
      · have plain := announced_glued (n := octets.length) (ends.opening rfl) (by decide)
        refine ⟨_, _, firstResponse_line split plain, ?_⟩
        have two : crlf.length = 2 := rfl
        simp only [onWire, Token.wire, List.flatMap_cons, List.length_append, two]
        omega

theorem Phrase.list_last (members : List Phrase) :
    ∃ front, (Phrase.list members).tokens = front ++ [.closing] := by
  cases members with
  | nil => exact ⟨[.opening], rfl⟩
  | cons first rest => exact ⟨_, rfl⟩

theorem Phrase.sequence_last (first : Phrase) (rest : List Phrase) (last : Phrase) :
    ∃ front, (Phrase.sequence first (rest ++ [last])).tokens = front ++ .space :: last.tokens := by
  induction rest generalizing first with
  | nil => exact ⟨first.tokens, rfl⟩
  | cons next rest ih =>
    obtain ⟨front, same⟩ := ih next
    refine ⟨first.tokens ++ .space :: front, ?_⟩
    simp [sequence, tokens, same]

theorem lastLine_closed (line : Bytes) (front : List Token) :
    announced (lastLine line (front ++ [.closing])) = none := by
  rw [lastLine_append]
  exact announced_of_last (c := byte ')') (by simp [lastLine, Token.wire]) (by decide)

theorem atomChar_closed (c : UInt8) (atom : (isAtomChar c || isRespSpecial c) = true) :
    c ≠ byte '\x7b' := by
  rintro rfl
  exact absurd atom (by decide)

theorem appendQuoted_last (v : Bytes) : (appendQuoted v).getLast? = some (byte '"') :=
  List.getLast?_concat

theorem lastLine_astring (line : Bytes) (front : List Token) (name : AString) :
    announced (lastLine line (front ++ .space :: name.phrase.tokens)) = none := by
  rw [lastLine_append]
  cases name with
  | atom name =>
    have closed : byte '\x7b' ∉ name.bytes := fun member => atomChar_closed _ (name.chars _ member) rfl
    simpa [lastLine, AString.phrase, Phrase.tokens, Token.wire, Atom.text]
      using announced_of_word closed
  | string value =>
    cases value with
    | literal octets => rfl
    | quoted content =>
      refine announced_of_last (c := byte '"') ?_ (by decide)
      change (lastLine line front ++ [byte ' '] ++ appendQuoted content.bytes).getLast? = _
      rw [List.getLast?_append, appendQuoted_last]
      rfl

/-- No well-formed response ends in what the lexer takes for a literal trailer. -/
theorem DataResponse.plain (response : DataResponse) :
    announced (lastLine [] response.tokens) = none := by
  cases response with
  | fetch key message items =>
    obtain ⟨front, same⟩ := Phrase.sequence_last (.word (.ofString "*" (LineText.inline rfl)))
      [numberPhrase message, .word key.text] (.list (items.flatMap FetchItem.phrases))
    obtain ⟨inner, closed⟩ := Phrase.list_last (items.flatMap FetchItem.phrases)
    have shape : (fetch key message items).tokens = (front ++ .space :: inner) ++ [.closing] :=
      same.trans (by rw [closed, List.append_assoc, List.cons_append])
    rw [shape, lastLine_closed]
  | list key flags delimiter mailbox =>
    obtain ⟨front, same⟩ := Phrase.sequence_last (.word (.ofString "*" (LineText.inline rfl)))
      [.word key.text, .list (flags.map WireFlag.phrase), delimiter.phrase] mailbox.phrase
    have shape :
      (list key flags delimiter mailbox).tokens = front ++ .space :: mailbox.phrase.tokens := same
    rw [shape, lastLine_astring]
  | status key mailbox items =>
    let values := items.flatMap fun pair => [Phrase.word pair.1.text, numberPhrase pair.2]
    obtain ⟨front, same⟩ := Phrase.sequence_last (.word (.ofString "*" (LineText.inline rfl)))
      [.word key.text, mailbox.phrase] (.list values)
    obtain ⟨inner, closed⟩ := Phrase.list_last values
    have shape : (status key mailbox items).tokens = (front ++ .space :: inner) ++ [.closing] :=
      same.trans (by rw [closed, List.append_assoc, List.cons_append])
    rw [shape, lastLine_closed]

/-- The lexer frames the response wherever a response may begin, and `read_literal` at each of
    its literals reads the octets. -/
structure LiteralsAgree (response : DataResponse) : Prop where
  framed : ∀ earlier following chunks, (responses.drain earlier).2 = [] →
    chunks.flatten = earlier ++ response.text ++ crlf ++ following →
    Lexer.received chunks = framing earlier ++ response.text :: framing following
  read : ∀ before octets after, response.tokens = before ++ .literal octets :: after →
    Cursor.readLiteral (onWire (.literal octets :: after)) = (some octets, onWire after)

theorem DataResponse.star (response : DataResponse) :
    ∃ star rest, response.tokens = Token.text star :: rest ∧
    EndsWith star.bytes (.text star) := by
  refine ⟨.ofString "*" (LineText.inline rfl), ?_⟩
  cases response <;> exact ⟨_, rfl, fun c member => (LineText.inside _ c member).1, nofun, nofun⟩

theorem DataResponse.complete {response : DataResponse}
    (unopened : ∀ octets, ¬ [Token.opening, .literal octets] <:+: response.tokens)
    (fits : ∀ octets, Token.literal octets ∈ response.tokens → octets.length < 2 ^ 64) :
    CompleteResponse response.text := by
  obtain ⟨star, rest, shape, ends⟩ := response.star
  have placed := response.phrase.placed
  have plain := response.plain
  change response.tokens.IsChain Token.mayFollow at placed
  rw [shape] at placed unopened fits plain
  have complete := complete_of_unopened ends placed unopened
    (fun octets member => fits octets (List.mem_cons_of_mem _ member)) plain
  simpa [text, shape, onWire, Token.wire] using complete

theorem DataResponse.cut_short {response : DataResponse}
    (opened : ∃ octets, [Token.opening, .literal octets] <:+: response.tokens)
    (fits : ∀ octets, Token.literal octets ∈ response.tokens → octets.length < 2 ^ 64)
    (following : Bytes) :
    ∃ text rest, firstResponse (response.text ++ following) = some (text, rest) ∧
      text.length < response.text.length := by
  obtain ⟨star, rest, shape, ends⟩ := response.star
  have placed := response.phrase.placed
  change response.tokens.IsChain Token.mayFollow at placed
  rw [shape] at placed opened fits
  have short := cut_short_of_opened ends placed opened
    (fun octets member => fits octets (List.mem_cons_of_mem _ member)) following
  simpa [text, shape, onWire, Token.wire] using short

/-- The lexer and the deep parser agree on the literals of a response exactly when none of them
    stands directly behind an opening parenthesis and their sizes fit in 64 bits. -/
theorem literals_agree (response : DataResponse) :
    LiteralsAgree response ↔ (∀ octets, ¬ [Token.opening, .literal octets] <:+: response.tokens) ∧
      ∀ octets, Token.literal octets ∈ response.tokens → octets.length < 2 ^ 64 := by
  constructor
  · intro agree
    have fits : ∀ octets, Token.literal octets ∈ response.tokens → octets.length < 2 ^ 64 := by
      intro octets member
      obtain ⟨before, after, split⟩ := List.append_of_mem member
      have read := agree.read before octets after split
      simp only [onWire, List.flatMap_cons, Token.wire] at read
      rw [readLiteral_marker] at read
      by_contra large
      rw [if_neg large] at read
      cases read
    refine ⟨fun octets opened => ?_, fits⟩
    obtain ⟨text, rest, found, shorter⟩ := DataResponse.cut_short ⟨octets, opened⟩ fits crlf
    have framed := agree.framed [] [] [response.text ++ crlf]
      (congrArg Prod.snd (Cutter.drain_of_waiting (firstResponse_waiting rfl))) (by simp)
    rw [received_eq_framing, List.flatten_singleton, framing, Cutter.drain_of_cut found] at framed
    have nothing : framing [] = [] :=
      congrArg Prod.fst (Cutter.drain_of_waiting (firstResponse_waiting rfl))
    rw [nothing, List.nil_append] at framed
    exact absurd (congrArg List.length (List.cons.inj framed).1) (Nat.ne_of_lt shorter)
  · rintro ⟨unopened, fits⟩
    refine ⟨fun earlier following chunks ended whole => ?_, fun before octets after split => ?_⟩
    · have first :
        responses.cut (response.text ++ crlf ++ following) = some (response.text, following) :=
        (DataResponse.complete unopened fits).first following
      rw [received_eq_framing, whole, List.append_assoc, List.append_assoc, framing,
        Cutter.drain_append, ended, List.nil_append, ← List.append_assoc, Cutter.drain_of_cut first]
      rfl
    · have small := fits octets (split ▸ by simp)
      simp only [onWire, List.flatMap_cons, Token.wire]
      rw [readLiteral_marker, if_pos small]

def literalDate : DataResponse :=
  let nil : NString := .nil (.spelled "NIL" nil_inline)
  let none : WireAddressList := .nil (.spelled "NIL" nil_inline)
  .fetch (.spelled "FETCH" fetch_inline) 1
    [.envelope (.spelled "ENVELOPE" envelope_inline)
      ⟨.string (.literal (ascii "hi")), nil, none, none, none, none, none, none, nil, nil⟩]

theorem opened_literal_splits :
    Lexer.received [literalDate.text ++ crlf] =
      [ascii "* 1 FETCH (ENVELOPE (\x7b2\x7d", ascii "hi NIL NIL NIL NIL NIL NIL NIL NIL NIL))"] ∧
    ¬ LiteralsAgree literalDate := by
  have split : Lexer.received [literalDate.text ++ crlf] =
      [ascii "* 1 FETCH (ENVELOPE (\x7b2\x7d",
      ascii "hi NIL NIL NIL NIL NIL NIL NIL NIL NIL))"] := by decide +kernel
  refine ⟨split, fun agree => ?_⟩
  have framed := agree.framed [] [] [literalDate.text ++ crlf]
    (congrArg Prod.snd (Cutter.drain_of_waiting (firstResponse_waiting rfl))) (by simp)
  rw [split] at framed
  have nothing : framing [] = [] :=
    congrArg Prod.fst (Cutter.drain_of_waiting (firstResponse_waiting rfl))
  rw [nothing, List.nil_append] at framed
  exact absurd (List.cons.inj framed).1 (by decide +kernel)

end Bkmail
