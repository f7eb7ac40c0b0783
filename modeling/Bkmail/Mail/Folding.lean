import Bkmail.Mail.Addresses
import Bkmail.Mail.Split

namespace Bkmail
open Fetch

inductive LineBreak where
  | crlf | lf
  deriving DecidableEq

def LineBreak.bytes : LineBreak → Bytes
  | .crlf => Bkmail.crlf
  | .lf => [lineFeed]

structure FieldWord where
  text : Bytes
  some_byte : text ≠ []
  plain : (text.all fun c => !isLwsp c) = true

/-- What stands in front of a word: a space, or the line break and the blanks of a fold. -/
inductive Gap where
  | space
  | fold (lineBreak : LineBreak) (blanks : Bytes) (some_blank : blanks ≠ [])
      (blank : blanks.all isWsp = true)

def Gap.bytes : Gap → Bytes
  | .space => [byte ' ']
  | .fold lineBreak blanks _ _ => lineBreak.bytes ++ blanks

structure HeaderField where
  name : Bytes
  words : List (Gap × FieldWord)
  ending : LineBreak
  named : (name.all fun c => c != byte ':' && c != lineFeed) = true
  unled : name.head?.any isWsp = false

structure JunkLine where
  text : Bytes
  continuation : List (LineBreak × Bytes)
  ending : LineBreak
  colonless : (text.all fun c => c != byte ':' && c != lineFeed) = true
  unled : text.head?.any isWsp = false
  continued : ∀ line ∈ continuation, line.2.head?.any isWsp = true ∧ lineFeed ∉ line.2

inductive HeaderEntry where
  | field (field : HeaderField)
  | junk (junk : JunkLine)

def opensFolded : List (Gap × FieldWord) → Bool
  | (.fold .., _) :: _ => true
  | _ => false

namespace HeaderField

def text (field : HeaderField) : Bytes :=
  field.name ++ byte ':' :: field.words.flatMap fun (gap, word) => gap.bytes ++ word.text

/-- The field on one line. -/
def unfold (field : HeaderField) : HeaderField :=
  { field with words := field.words.map fun (_, word) => (.space, word) }

def foldedAtColon (field : HeaderField) : Bool := opensFolded field.words

end HeaderField

namespace HeaderEntry

def text : HeaderEntry → Bytes
  | .field own => own.text
  | .junk line => line.text ++ line.continuation.flatMap fun (lineBreak, more) =>
      lineBreak.bytes ++ more

def ending : HeaderEntry → LineBreak
  | .field own => own.ending
  | .junk line => line.ending

def fields (entries : List HeaderEntry) : List HeaderField :=
  entries.filterMap fun
    | .field own => some own
    | .junk _ => none

def render (closed : Bool) : List HeaderEntry → Bytes
  | [] => []
  | [entry] => entry.text ++ if closed then entry.ending.bytes else []
  | entry :: others => entry.text ++ entry.ending.bytes ++ render closed others

end HeaderEntry

section Values

def spaced (words : List FieldWord) : Bytes := words.flatMap fun word => byte ' ' :: word.text

theorem FieldWord.bytes (word : FieldWord) {c : UInt8} (mem : c ∈ word.text) : isLwsp c = false := by
  simpa using List.all_eq_true.mp word.plain c mem

theorem isWsp_of_isLwsp {c : UInt8} (other : isLwsp c = false) : isWsp c = false := by
  simp only [isLwsp, Bool.or_eq_false_iff] at other
  simp [isWsp, other]

theorem dropWhile_word (word : FieldWord) (rest : Bytes) :
    (word.text ++ rest).dropWhile isWsp = word.text ++ rest := by
  cases eq : word.text with
  | nil => exact absurd eq word.some_byte
  | cons c text =>
    have plain : isWsp c = false := isWsp_of_isLwsp (word.bytes (eq ▸ List.mem_cons_self))
    rw [List.cons_append, List.dropWhile_cons_of_neg (by simp [plain])]

theorem dropWhile_spaced (words : List FieldWord) :
    (if (spaced words).all isWsp then spaced words else (spaced words).dropWhile isWsp) =
    (spaced words).drop 1 := by
  cases words with
  | nil => rfl
  | cons word words =>
    have text : spaced (word :: words) = byte ' ' :: (word.text ++ spaced words) := rfl
    have blank : isWsp (byte ' ') = true := rfl
    have unblank : (spaced (word :: words)).all isWsp = false := by
      cases eq : word.text with
      | nil => exact absurd eq word.some_byte
      | cons c rest =>
        have plain : isWsp c = false := isWsp_of_isLwsp (word.bytes (eq ▸ List.mem_cons_self))
        simp [text, eq, plain]
    rw [unblank, text, List.dropWhile_cons_of_pos blank, dropWhile_word]
    rfl

end Values

namespace Fetch.PendingField

theorem flush_out (field : PendingField) :
    field.flush.out = assignField field.out field.name field.value := by
  rw [flush]
  cases name : field.name with
  | nil => rfl
  | cons c rest => rfl

theorem takeLine_named {name : Bytes} (colonless : byte ':' ∉ name)
    (unled : name.head?.any isWsp = false)
    (field : PendingField) (value : Bytes) :
    field.takeLine (name ++ byte ':' :: value) =
      { out := field.flush.out, name, value := if value.all isWsp then value
      else value.dropWhile isWsp } := by
  have colon : (name ++ byte ':' :: value).idxOf? (byte ':') = some name.length :=
    idxOf?_append colonless value
  have led : (name ++ byte ':' :: value).head?.any isWsp = false := by
    cases name with
    | nil => rfl
    | cons c name => exact unled
  have some_byte : (name ++ byte ':' :: value).isEmpty = false := by cases name <;> rfl
  have behind : (name ++ byte ':' :: value).drop (name.length + 1) = value := by simp
  rw [takeLine, some_byte, led, colon]
  simp only [Bool.false_eq_true, ↓reduceIte, behind, List.take_left]

theorem takeLine_start {name : Bytes} (colonless : byte ':' ∉ name)
    (unled : name.head?.any isWsp = false)
    (field : PendingField) (words : List FieldWord) :
    field.takeLine (name ++ byte ':' :: spaced words) =
      { out := field.flush.out, name, value := (spaced words).drop 1 } := by
  rw [takeLine_named colonless unled, dropWhile_spaced]

theorem takeLine_continue {blanks : Bytes} (some_blank : blanks ≠ []) (blank : blanks.all isWsp = true)
    (field : PendingField) (word : FieldWord) (words : List FieldWord) :
    field.takeLine (blanks ++ (word.text ++ spaced words)) =
      { field with value := field.value ++ spaced (word :: words) } := by
  have rest : (blanks ++ (word.text ++ spaced words)).dropWhile isWsp = word.text ++ spaced words := by
    rw [List.dropWhile_append_of_pos (List.all_eq_true.mp blank), dropWhile_word]
  cases blanks with
  | nil => exact absurd rfl some_blank
  | cons c blanks =>
    have led : isWsp c = true := List.all_eq_true.mp blank c List.mem_cons_self
    rw [takeLine, rest]
    simp [led, spaced]

end Fetch.PendingField

section Lines

theorem LineBreak.closes (lineBreak : LineBreak) (line : Bytes) :
    lastByte lineFeed (line ++ lineBreak.bytes) = lineFeed := by
  rw [lastByte_append]
  cases lineBreak <;> rfl

theorem headerLines_line {line : Bytes} (inline : lineFeed ∉ line) (lineBreak : LineBreak)
    (rest : Bytes) :
    headerLines (line ++ lineBreak.bytes ++ rest) =
      (match lineBreak with
      | .crlf => line
      | .lf => chopReturn line) :: headerLines rest := by
  rw [headerLines_append rest (lineBreak.closes line)]
  cases lineBreak with
  | lf => rw [LineBreak.bytes, headerLines, rawLines_ended inline]; rfl
  | crlf =>
    have returned : lineFeed ∉ line ++ [byte '\r'] := by
      simpa using ⟨inline, by decide⟩
    have ended := rawLines_ended returned
    rw [List.append_assoc, show [byte '\r'] ++ [lineFeed] = crlf from rfl] at ended
    rw [LineBreak.bytes, headerLines, ended, List.map_singleton, chopReturn_append]
    rfl

/-- What a line of a field is made of: it does not end in `CR`, and is not empty. -/
structure FieldLine (line : Bytes) : Prop where
  inline : lineFeed ∉ line
  last : ∃ c, line.getLast? = some c ∧ c ≠ byte '\r'

theorem FieldLine.append {line back : Bytes} (front : lineFeed ∉ line) (own : FieldLine back) :
    FieldLine (line ++ back) := by
  obtain ⟨c, last, unreturned⟩ := own.last
  refine ⟨fun mem => (List.mem_append.mp mem).elim front own.inline, c, ?_, unreturned⟩
  rw [List.getLast?_append, last]
  rfl

theorem FieldWord.line (word : FieldWord) : FieldLine word.text := by
  have last := List.getLast?_eq_some_getLast word.some_byte
  have plain := word.bytes (List.getLast_mem word.some_byte)
  refine ⟨fun mem => ?_, _, last, fun returned => ?_⟩
  · have := word.bytes mem
    simp [isLwsp, lineFeed] at this
  · rw [returned] at plain
    simp [isLwsp] at plain

theorem headerLines_fieldLine {line : Bytes} (own : FieldLine line) (lineBreak : LineBreak)
    (rest : Bytes) :
    headerLines (line ++ lineBreak.bytes ++ rest) = line :: headerLines rest := by
  rw [headerLines_line own.inline]
  cases lineBreak with
  | crlf => rfl
  | lf =>
    obtain ⟨c, last, unreturned⟩ := own.last
    have some_byte : line ≠ [] := by rintro rfl; cases last
    have unchopped : chopReturn line = line := by
      rw [chopReturn_eq_self_iff some_byte, last]
      simpa using unreturned
    simp only [unchopped]

def fieldLines (begun : Bytes) : List (Gap × FieldWord) → List Bytes
  | [] => [begun]
  | (.space, word) :: words => fieldLines (begun ++ byte ' ' :: word.text) words
  | (.fold _ blanks _ _, word) :: words => begun :: fieldLines (blanks ++ word.text) words

theorem headerLines_field {begun : Bytes} (own : FieldLine begun) (words : List (Gap × FieldWord))
    (ending : LineBreak) (rest : Bytes) :
    headerLines (begun ++ (words.flatMap fun (gap, word) => gap.bytes ++ word.text) ++
    ending.bytes ++ rest) =
      fieldLines begun words ++ headerLines rest := by
  induction words generalizing begun with
  | nil =>
    rw [List.flatMap_nil, List.append_nil, headerLines_fieldLine own]
    rfl
  | cons head words ih =>
    obtain ⟨gap, word⟩ := head
    cases gap with
    | space =>
      have longer : FieldLine (begun ++ byte ' ' :: word.text) := by
        have spaced : lineFeed ∉ begun ++ [byte ' '] := by
          simpa using ⟨own.inline, by decide⟩
        have := FieldLine.append spaced word.line
        rwa [List.append_assoc] at this
      rw [fieldLines, ← ih longer]
      simp [Gap.bytes]
    | fold lineBreak blanks some_blank blank =>
      have next : FieldLine (blanks ++ word.text) := by
        refine FieldLine.append (fun mem => ?_) word.line
        have := List.all_eq_true.mp blank _ mem
        revert this
        decide
      rw [fieldLines, List.cons_append, ← ih next, ← headerLines_fieldLine own lineBreak]
      simp [Gap.bytes]

end Lines

namespace HeaderField

/-- The last of the fields with a name. -/
def lastNamed (own : Bytes) (fields : List HeaderField) : Option HeaderField :=
  (fields.filter fun field => asciiIequals field.name own).getLast?

def value (field : HeaderField) : Bytes :=
  let text := spaced (field.words.map Prod.snd)
  if field.foldedAtColon then text else text.drop 1

end HeaderField

section Loop

open Fetch.PendingField

theorem spaced_append (front back : List FieldWord) :
    spaced (front ++ back) = spaced front ++ spaced back :=
  List.flatMap_append

theorem takeLines_continue {blanks : Bytes} (some_blank : blanks ≠ []) (blank : blanks.all isWsp = true)
    (pending : PendingField) (word : FieldWord) (front : List FieldWord)
    (words : List (Gap × FieldWord)) :
    (fieldLines (blanks ++ (word.text ++ spaced front)) words).foldl takeLine pending =
      { pending with value := pending.value ++ spaced (word :: front ++ words.map Prod.snd) } := by
  induction words generalizing pending blanks word front with
  | nil =>
    rw [fieldLines, List.foldl_cons, takeLine_continue some_blank blank]
    simp
  | cons head words ih =>
    obtain ⟨gap, next⟩ := head
    cases gap with
    | space =>
      have longer : blanks ++ (word.text ++ spaced front) ++ byte ' ' :: next.text =
          blanks ++ (word.text ++ spaced (front ++ [next])) := by simp [spaced]
      rw [fieldLines, longer, ih some_blank blank]
      simp
    | fold lineBreak more some_more blank_more =>
      rw [fieldLines, List.foldl_cons, takeLine_continue some_blank blank]
      have alone : more ++ next.text = more ++ (next.text ++ spaced []) := by simp [spaced]
      rw [alone, ih some_more blank_more]
      simp [← spaced_append]

theorem takeLines_start {name : Bytes} (colonless : byte ':' ∉ name)
    (unled : name.head?.any isWsp = false)
    (pending : PendingField) (front : List FieldWord) (words : List (Gap × FieldWord)) :
    (fieldLines (name ++ byte ':' :: spaced front) words).foldl takeLine pending =
      { out := pending.flush.out, name,
        value :=
          if front = [] ∧ opensFolded words then spaced (words.map Prod.snd)
          else (spaced (front ++ words.map Prod.snd)).drop 1 } := by
  induction words generalizing front with
  | nil =>
    rw [fieldLines, List.foldl_cons, takeLine_start colonless unled]
    simp [opensFolded]
  | cons head words ih =>
    obtain ⟨gap, next⟩ := head
    cases gap with
    | space =>
      have longer : name ++ byte ':' :: spaced front ++ byte ' ' :: next.text =
          name ++ byte ':' :: spaced (front ++ [next]) := by simp [spaced]
      rw [fieldLines, longer, ih]
      simp [opensFolded]
    | fold lineBreak more some_more blank_more =>
      have alone : more ++ next.text = more ++ (next.text ++ spaced []) := by simp [spaced]
      rw [fieldLines, List.foldl_cons, takeLine_start colonless unled, alone,
        takeLines_continue some_more blank_more]
      cases front with
      | nil => simp [spaced, opensFolded]
      | cons first front => simp [spaced]

theorem HeaderField.colonless (field : HeaderField) : byte ':' ∉ field.name := by
  intro mem
  have := List.all_eq_true.mp field.named _ mem
  simp at this

theorem HeaderField.begins (field : HeaderField) : FieldLine (field.name ++ [byte ':']) := by
  refine FieldLine.append (fun mem => ?_) ⟨by decide, byte ':', rfl, by decide⟩
  have := List.all_eq_true.mp field.named _ mem
  simp at this

theorem takeField (field : HeaderField) (ending : LineBreak) (pending : PendingField) :
    ((headerLines (field.text ++ ending.bytes)).foldl takeLine pending).flush.out =
      assignField pending.flush.out field.name field.value := by
  have lines := headerLines_field field.begins field.words ending []
  rw [List.append_nil, List.append_assoc field.name, show headerLines [] = [] from rfl,
    List.append_nil] at lines
  have begun : field.name ++ byte ':' :: spaced [] = field.name ++ [byte ':'] := rfl
  rw [HeaderField.text, ← List.singleton_append, lines, ← begun,
    takeLines_start field.colonless field.unled, flush_out]
  simp [HeaderField.value, HeaderField.foldedAtColon]

theorem chopReturn_subset {line : Bytes} {c : UInt8} (mem : c ∈ chopReturn line) : c ∈ line := by
  rw [chopReturn] at mem
  split at mem
  · exact List.mem_of_mem_dropLast mem
  · exact mem

theorem chopReturn_head (line : Bytes) :
    chopReturn line = [] ∨ (chopReturn line).head? = line.head? := by
  rw [chopReturn]
  split
  · cases line with
    | nil => exact .inl rfl
    | cons c rest =>
      cases rest with
      | nil => exact .inl rfl
      | cons d more => exact .inr rfl
  · exact .inr rfl

theorem chopReturn_led {line : Bytes} (led : line.head?.any isWsp = true) :
    (chopReturn line).head?.any isWsp = true := by
  cases line with
  | nil => cases led
  | cons c rest =>
    cases rest with
    | nil =>
      have other : c ≠ byte '\r' := by
        rintro rfl
        revert led
        decide
      simpa [chopReturn, other] using led
    | cons d more =>
      rw [chopReturn]
      split <;> exact led

theorem assignField_unnamed (out : MailHeader) (value : Bytes) : assignField out [] value = out := rfl

theorem takeLine_junk {line : Bytes} (colonless : byte ':' ∉ line)
    (unled : line.head?.any isWsp = false)
    (pending : PendingField) : pending.takeLine line = pending.flush := by
  have colon : line.idxOf? (byte ':') = none := List.idxOf?_eq_none_iff.mpr colonless
  rw [takeLine, unled, colon]
  simp

theorem takeLine_led {line : Bytes} (led : line.head?.any isWsp = true) (pending : PendingField) :
    (pending.takeLine line).name = pending.name ∧ (pending.takeLine line).out = pending.out := by
  have some_byte : line.isEmpty = false := by
    cases line with
    | nil => cases led
    | cons c line => rfl
  rw [takeLine, some_byte, led]
  exact ⟨rfl, rfl⟩

/-- What continues a junk line goes nowhere. -/
theorem takeContinuation {begun : Bytes} (inline : lineFeed ∉ begun)
    (continuation : List (LineBreak × Bytes))
    (continued : ∀ line ∈ continuation, line.2.head?.any isWsp = true ∧ lineFeed ∉ line.2)
    (ending : LineBreak)
    {pending : PendingField} {out : MailHeader}
    (dropped : ∀ line, line = begun ∨ line = chopReturn begun →
      (pending.takeLine line).name = [] ∧ (pending.takeLine line).out = out) :
    ((headerLines (begun ++ (continuation.flatMap fun (lineBreak, line) => lineBreak.bytes ++ line) ++
      ending.bytes)).foldl takeLine pending).flush.out = out := by
  induction continuation generalizing begun pending with
  | nil =>
    have lines := headerLines_line inline ending []
    rw [List.append_nil] at lines
    rw [List.flatMap_nil, List.append_nil, lines, List.foldl_cons, show headerLines [] = []
      from rfl, List.foldl_nil, flush_out]
    cases ending with
    | crlf =>
      obtain ⟨name, same⟩ := dropped begun (.inl rfl)
      rw [name, same, assignField_unnamed]
    | lf =>
      obtain ⟨name, same⟩ := dropped (chopReturn begun) (.inr rfl)
      rw [name, same, assignField_unnamed]
  | cons head continuation ih =>
    obtain ⟨lineBreak, line⟩ := head
    obtain ⟨led, unended⟩ := continued (lineBreak, line) List.mem_cons_self
    have others : ∀ line ∈ continuation, line.2.head?.any isWsp = true ∧ lineFeed ∉ line.2 :=
      fun line mem => continued line (List.mem_cons_of_mem _ mem)
    have next : ∀ taken, taken = begun ∨ taken = chopReturn begun →
      ∀ more, more = line ∨ more = chopReturn line →
        ((pending.takeLine taken).takeLine more).name = [] ∧
        ((pending.takeLine taken).takeLine more).out = out := by
      intro taken begins more continues
      have led : more.head?.any isWsp = true := by
        obtain rfl | rfl := continues
        · exact led
        · exact chopReturn_led led
      obtain ⟨name, same⟩ := takeLine_led led (pending.takeLine taken)
      obtain ⟨unnamed, kept⟩ := dropped taken begins
      exact ⟨name.trans unnamed, same.trans kept⟩
    have split : begun ++ ((lineBreak, line) :: continuation).flatMap (fun (lineBreak, line) =>
      lineBreak.bytes ++ line) ++ ending.bytes = begun ++ lineBreak.bytes ++
          (line ++ (continuation.flatMap fun (lineBreak, line) => lineBreak.bytes ++ line) ++
          ending.bytes) := by
      simp
    rw [split, headerLines_line inline, List.foldl_cons]
    cases lineBreak with
    | crlf => exact ih unended others (next begun (.inl rfl))
    | lf => exact ih unended others (next (chopReturn begun) (.inr rfl))

theorem takeJunk (line : JunkLine) (ending : LineBreak) (pending : PendingField) :
    ((headerLines ((HeaderEntry.junk line).text ++ ending.bytes)).foldl takeLine pending).flush.out =
      pending.flush.out := by
  have own : ∀ c ∈ line.text, c ≠ byte ':' ∧ c ≠ lineFeed := by
    simpa using List.all_eq_true.mp line.colonless
  apply takeContinuation (fun mem => (own _ mem).2 rfl) line.continuation line.continued
  intro taken begins
  have same : pending.takeLine taken = pending.flush := by
    obtain rfl | rfl := begins
    · exact takeLine_junk (fun mem => (own _ mem).1 rfl) line.unled pending
    · apply takeLine_junk (fun mem => (own _ (chopReturn_subset mem)).1 rfl)
      obtain empty | head := chopReturn_head line.text
      · rw [empty]
        rfl
      · rw [head, line.unled]
  rw [same]
  exact ⟨rfl, rfl⟩

def HeaderEntry.assign (out : MailHeader) : HeaderEntry → MailHeader
  | .field own => assignField out own.name own.value
  | .junk _ => out

theorem takeEntry (entry : HeaderEntry) (ending : LineBreak) (pending : PendingField) :
    ((headerLines (entry.text ++ ending.bytes)).foldl takeLine pending).flush.out =
    entry.assign pending.flush.out := by
  cases entry with
  | field own => exact takeField own ending pending
  | junk line => exact takeJunk line ending pending

theorem takeLines_unended (block : Bytes) (pending : PendingField) :
    ((headerLines (block ++ [lineFeed])).foldl takeLine pending).flush.out =
      ((headerLines block).foldl takeLine pending).flush.out := by
  by_cases whole : lastByte lineFeed block = lineFeed
  · rw [headerLines_empty whole (.inr rfl), List.foldl_append]
    show (takeLine _ []).flush.out = _
    rw [takeLine, List.isEmpty_nil, if_pos rfl, flush_out, flush_out]
    exact assignField_unnamed _ _
  · rw [headerLines_lineFeed whole]

theorem takeEntries (closed : Bool) (entries : List HeaderEntry) (pending : PendingField) :
    ((headerLines (HeaderEntry.render closed entries)).foldl takeLine pending).flush.out =
      entries.foldl HeaderEntry.assign pending.flush.out := by
  induction entries generalizing pending with
  | nil => rfl
  | cons entry entries ih =>
    cases entries with
    | nil =>
      rw [HeaderEntry.render, List.foldl_cons, List.foldl_nil]
      cases closed with
      | true => exact takeEntry entry entry.ending pending
      | false =>
        rw [if_neg Bool.false_ne_true, List.append_nil, ← takeLines_unended]
        exact takeEntry entry .lf pending
    | cons next entries =>
      have block : HeaderEntry.render closed (entry :: next :: entries) =
          entry.text ++ entry.ending.bytes ++ HeaderEntry.render closed (next :: entries) := rfl
      rw [block, headerLines_append _ (entry.ending.closes entry.text), List.foldl_append,
        ih, takeEntry]
      rfl

def assignFields (fields : List HeaderField) (out : MailHeader) : MailHeader :=
  fields.foldl (fun out field => assignField out field.name field.value) out

theorem parseMailHeaderBlock_render (closed : Bool) (entries : List HeaderEntry) (out : MailHeader) :
    parseMailHeaderBlock (HeaderEntry.render closed entries) out =
    assignFields (HeaderEntry.fields entries) out := by
  rw [parseMailHeaderBlock, takeEntries]
  show entries.foldl HeaderEntry.assign out = _
  induction entries generalizing out with
  | nil => rfl
  | cons entry entries ih => cases entry <;> exact ih _

end Loop

section Fields

def fieldNames : List Bytes :=
  [ascii "Subject", ascii "Date", ascii "Message-ID", ascii "In-Reply-To", ascii "From", ascii "To",
    ascii "Cc", ascii "Bcc"]

theorem iequals_congr {name own : Bytes} (named : asciiIequals name own = true) (other : Bytes) :
    asciiIequals name other = asciiIequals own other := by
  rw [asciiIequals, asciiIequals, eq_of_beq named]

/-- Each field goes into the member of its name. -/
theorem assignField_eq (out : MailHeader) (name value : Bytes) :
    assignField out name value =
      { subject := if asciiIequals name (ascii "Subject") then value.rdropWhile isWsp else out.subject,
        «from» := if asciiIequals name (ascii "From") then out.from ++
        parseRfc5322Addresses (value.rdropWhile isWsp)
          else out.from,
        «to» := if asciiIequals name (ascii "To") then out.to ++
        parseRfc5322Addresses (value.rdropWhile isWsp)
          else out.to,
        cc := if asciiIequals name (ascii "Cc") then out.cc ++
        parseRfc5322Addresses (value.rdropWhile isWsp)
          else out.cc,
        bcc := if asciiIequals name (ascii "Bcc") then out.bcc ++
        parseRfc5322Addresses (value.rdropWhile isWsp)
          else out.bcc,
        date := if asciiIequals name (ascii "Date") then value.rdropWhile isWsp else out.date,
        messageId := if asciiIequals name (ascii "Message-ID") then value.rdropWhile isWsp
        else out.messageId, inReplyTo := if asciiIequals name (ascii "In-Reply-To")
        then value.rdropWhile isWsp else out.inReplyTo } := by
  by_cases known : ∃ own ∈ fieldNames, asciiIequals name own = true
  · obtain ⟨own, mem, named⟩ := known
    simp only [assignField, iequals_congr named]
    simp only [fieldNames, List.mem_cons, List.not_mem_nil, or_false] at mem
    rcases mem with rfl | rfl | rfl | rfl | rfl | rfl | rfl | rfl <;> rfl
  · have other : ∀ own ∈ fieldNames, asciiIequals name own = false := by
      intro own mem
      apply Bool.eq_false_iff.mpr
      exact fun named => known ⟨own, mem, named⟩
    simp only [fieldNames, List.forall_mem_cons] at other
    simp only [assignField, other, Bool.false_eq_true, ↓reduceIte]

theorem spaced_last {words : List FieldWord} {c : UInt8} (last : (spaced words).getLast? = some c) :
    isWsp c = false := by
  induction words with
  | nil => cases last
  | cons word words ih =>
    rw [show spaced (word :: words) = byte ' ' :: word.text ++ spaced words from rfl,
      List.getLast?_append] at last
    cases more : (spaced words).getLast? with
    | some d =>
      rw [more] at last
      cases last
      exact ih more
    | none =>
      rw [more, Option.none_or, List.getLast?_cons,
        List.getLast?_eq_some_getLast word.some_byte] at last
      cases last
      exact isWsp_of_isLwsp (word.bytes (List.getLast_mem word.some_byte))

theorem HeaderField.value_trimmed (field : HeaderField) :
    field.value.rdropWhile isWsp = field.value := by
  rw [List.rdropWhile_eq_self_iff]
  intro some_byte
  obtain ⟨text, eq⟩ : ∃ text, text = spaced (field.words.map Prod.snd) := ⟨_, rfl⟩
  have last : field.value.getLast? = text.getLast? := by
    rw [HeaderField.value, ← eq] at some_byte ⊢
    by_cases folded : field.foldedAtColon = true
    · rw [if_pos folded]
    · rw [if_neg folded] at some_byte ⊢
      match text with
      | [] | [_] => exact absurd rfl some_byte
      | c :: d :: text => rfl
  rw [List.getLast?_eq_some_getLast some_byte, eq] at last
  simp [spaced_last last.symm]

theorem HeaderField.unfold_value (field : HeaderField) :
    field.unfold.value = (spaced (field.words.map Prod.snd)).drop 1 := by
  have unfolded : field.unfold.foldedAtColon = false := by
    rw [HeaderField.foldedAtColon, HeaderField.unfold]
    cases field.words <;> rfl
  have same : field.unfold.words.map Prod.snd = field.words.map Prod.snd := by
    rw [HeaderField.unfold, List.map_map]
    rfl
  rw [HeaderField.value, unfolded, same]
  rfl

theorem HeaderField.value_unfold_iff (field : HeaderField) :
    field.value = field.unfold.value ↔ ¬ field.foldedAtColon := by
  rw [field.unfold_value, HeaderField.value]
  by_cases folded : field.foldedAtColon = true
  · simp only [folded, ↓reduceIte, not_true_eq_false, iff_false]
    intro same
    rw [HeaderField.foldedAtColon] at folded
    cases words : field.words with
    | nil => rw [words] at folded; cases folded
    | cons head words =>
      rw [‹field.words = _›] at same
      have := congrArg List.length same
      simp [spaced] at this
  · simp [folded]

theorem parseRfc5322Addresses_space (text : Bytes) :
    parseRfc5322Addresses (byte ' ' :: text) = parseRfc5322Addresses text := by
  have items : addressItems false 0 (byte ' ' :: text) =
    (addressItems false 0 text).modifyHead (byte ' ' :: ·) := rfl
  rw [parseRfc5322Addresses, parseRfc5322Addresses, items]
  cases addressItems false 0 text with
  | nil => rfl
  | cons item items => rfl

theorem HeaderField.addresses_unfold (field : HeaderField) :
    parseRfc5322Addresses field.value = parseRfc5322Addresses field.unfold.value := by
  rw [field.unfold_value, HeaderField.value]
  split
  · cases field.words with
    | nil => rfl
    | cons head words => exact parseRfc5322Addresses_space _
  · rfl

theorem foldl_last {α β : Type} (p : α → Bool) (f : α → β) (out : β) (list : List α) :
    list.foldl (fun out a => if p a then f a else out) out =
    ((list.filter p).getLast?.map f).getD out := by
  induction list generalizing out with
  | nil => rfl
  | cons a list ih =>
    rw [List.foldl_cons, ih]
    by_cases chosen : p a = true
    · rw [List.filter_cons_of_pos chosen, if_pos chosen, List.getLast?_cons]
      cases (list.filter p).getLast? <;> rfl
    · rw [List.filter_cons_of_neg chosen, if_neg chosen]

/-- A member that keeps the last text it is given. -/
theorem textMember_iff (member : MailHeader → Bytes) (own : Bytes)
    (assigned : ∀ out name value, member (assignField out name value) =
      if asciiIequals name own then value.rdropWhile isWsp else member out)
    (fields : List HeaderField) (out : MailHeader) :
    member (assignFields fields out) = member (assignFields (fields.map HeaderField.unfold) out) ↔
      ∀ field, HeaderField.lastNamed own fields = some field → ¬ field.foldedAtColon := by
  have gathered : ∀ f : HeaderField → Bytes × Bytes, (∀ field, (f field).1 = field.name) →
      member (fields.foldl (fun out field => assignField out (f field).1 (f field).2) out) =
        ((HeaderField.lastNamed own fields).map fun field =>
        (f field).2.rdropWhile isWsp).getD (member out) := by
    intro f named
    rw [HeaderField.lastNamed, ← foldl_last]
    apply Eq.symm
    apply List.foldl_hom member
    intro out field
    rw [assigned, named]
  have folded := gathered (fun field => (field.name, field.value)) fun _ => rfl
  have unfolded := gathered (fun field => (field.name, field.unfold.value)) fun _ => rfl
  rw [assignFields, assignFields, List.foldl_map, folded]
  show _ = member (fields.foldl (fun out field =>
    assignField out field.name field.unfold.value) out) ↔ _
  rw [unfolded]
  cases HeaderField.lastNamed own fields with
  | none => simp
  | some field => simp [HeaderField.value_trimmed, field.value_unfold_iff]

theorem listMember_same (member : MailHeader → List Address) (own : Bytes)
    (assigned : ∀ out name value, member (assignField out name value) =
      if asciiIequals name own then member out ++ parseRfc5322Addresses (value.rdropWhile isWsp)
      else member out)
    (fields : List HeaderField) (out : MailHeader) :
    member (assignFields fields out) = member (assignFields (fields.map HeaderField.unfold) out) := by
  have gathered : ∀ f : HeaderField → Bytes × Bytes, (∀ field, (f field).1 = field.name) →
      member (fields.foldl (fun out field => assignField out (f field).1 (f field).2) out) =
        fields.foldl (fun list field => if asciiIequals field.name own then
          list ++ parseRfc5322Addresses ((f field).2.rdropWhile isWsp) else list) (member out) := by
    intro f named
    apply Eq.symm
    apply List.foldl_hom member
    intro out field
    rw [assigned, named]
  have folded := gathered (fun field => (field.name, field.value)) fun _ => rfl
  have unfolded := gathered (fun field => (field.name, field.unfold.value)) fun _ => rfl
  rw [assignFields, assignFields, List.foldl_map, folded]
  show _ = member (fields.foldl (fun out field => assignField out field.name field.unfold.value) out)
  rw [unfolded]
  congr 1
  funext list field
  rw [field.value_trimmed, field.unfold.value_trimmed, field.addresses_unfold]

/-- Folding goes unnoticed but for the texts: of each, the last field must not be folded behind its
    colon. -/
theorem assignFields_iff (fields : List HeaderField) (out : MailHeader) :
    assignFields fields out = assignFields (fields.map HeaderField.unfold) out ↔
      ∀ own ∈ [ascii "Subject", ascii "Date", ascii "Message-ID", ascii "In-Reply-To"], ∀ field,
        HeaderField.lastNamed own fields = some field → ¬ field.foldedAtColon := by
  have subject :=
    textMember_iff MailHeader.subject _ (fun out name value => by rw [assignField_eq]) fields out
  have date :=
    textMember_iff MailHeader.date _ (fun out name value => by rw [assignField_eq]) fields out
  have messageId :=
    textMember_iff MailHeader.messageId _ (fun out name value => by rw [assignField_eq]) fields out
  have inReplyTo :=
    textMember_iff MailHeader.inReplyTo _ (fun out name value => by rw [assignField_eq]) fields out
  simp only [List.forall_mem_cons, ← subject, ← date, ← messageId, ← inReplyTo, List.not_mem_nil,
    false_implies, implies_true, and_true]
  constructor
  · intro same
    rw [← same]
    exact ⟨rfl, rfl, rfl, rfl⟩
  · rintro ⟨subject, date, messageId, inReplyTo⟩
    ext1
    · exact subject
    · exact listMember_same MailHeader.from _ (fun out name value => by rw [assignField_eq]) fields out
    · exact listMember_same MailHeader.to _ (fun out name value => by rw [assignField_eq]) fields out
    · exact listMember_same MailHeader.cc _ (fun out name value => by rw [assignField_eq]) fields out
    · exact listMember_same MailHeader.bcc _ (fun out name value => by rw [assignField_eq]) fields out
    · exact date
    · exact messageId
    · exact inReplyTo

end Fields

/-- Junk lines never matter. Folding does if the last field of a text member is folded behind its
    colon. -/
theorem parseMailHeaderBlock_folded_iff (closed : Bool) (entries : List HeaderEntry)
    (out : MailHeader) :
    let fields := HeaderEntry.fields entries
    parseMailHeaderBlock (HeaderEntry.render closed entries) out =
        parseMailHeaderBlock (HeaderEntry.render closed (fields.map .field)) out ∧
      (parseMailHeaderBlock (HeaderEntry.render closed (fields.map .field)) out =
          parseMailHeaderBlock (HeaderEntry.render closed (fields.map fun field =>
          .field field.unfold)) out ↔
        ∀ own ∈ [ascii "Subject", ascii "Date", ascii "Message-ID", ascii "In-Reply-To"], ∀ field,
          HeaderField.lastNamed own fields = some field → ¬ field.foldedAtColon) := by
  have kept : ∀ fields : List HeaderField, HeaderEntry.fields (fields.map .field) = fields := by
    intro fields
    rw [HeaderEntry.fields, List.filterMap_map]
    exact List.filterMap_some
  have unfolded :
    HeaderEntry.fields ((HeaderEntry.fields entries).map fun field => .field field.unfold) =
      (HeaderEntry.fields entries).map HeaderField.unfold := by
    have own := kept ((HeaderEntry.fields entries).map HeaderField.unfold)
    rwa [List.map_map] at own
  constructor
  · rw [parseMailHeaderBlock_render, parseMailHeaderBlock_render, kept]
  · rw [parseMailHeaderBlock_render, parseMailHeaderBlock_render, kept, unfolded]
    exact assignFields_iff _ out

/-- What is left of a fold behind the colon is a space in front of the subject. -/
theorem parseMailHeaderBlock_colon_folded :
    ∃ field : HeaderField, field.text = ascii "Subject:\r\n a" ∧
    field.unfold.text = ascii "Subject: a" ∧ parseMailHeaderBlock field.text {} = { subject := ascii " a" } ∧
      parseMailHeaderBlock field.unfold.text {} = { subject := ascii "a" } := by
  refine ⟨{ name := ascii "Subject", words := [(.fold .crlf [byte ' '] (by simp) rfl, ⟨ascii "a", by decide, rfl⟩)],
            ending := .crlf, named := rfl, unled := rfl }, rfl, rfl, rfl, rfl⟩

end Bkmail
