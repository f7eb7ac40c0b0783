import Bkmail.Command.Mailbox

namespace Bkmail

open AppendCommand (appendArg)

namespace Astring

theorem read_appendArg (v : Bytes) {text : Bytes} (stops : Stops isAstringChar text) :
    read (appendArg v ++ text) = if v.all isTextChar then some (v, text) else none := by
  rw [appendArg]
  split
  case isTrue safe =>
    have textual : v.all isTextChar = true := List.all_eq_true.mpr fun c member =>
      (atomSafe_astringChar c (atomSafe_chars safe c member)).2.1
    rw [read_atom safe stops, if_pos textual]
  case isFalse =>
    rw [appendQuoted_append, read, if_pos (by decide)]
    exact readQuotedChars_escaped v text

def encode : List Bytes → Bytes
  | [] => []
  | [v] => appendArg v
  | v :: w :: values => appendArg v ++ byte ' ' :: encode (w :: values)

/-- Arguments are read back if all of them are TEXT-CHARs, and not at all otherwise. -/
theorem readArguments_encode (values : List Bytes) {text : Bytes}
    (stops : Stops isAstringChar text) :
    (∃ after, readArguments values.length (encode values ++ text) = some (values, after)) ↔
      ∀ v ∈ values, ∀ c ∈ v, isTextChar c = true := by
  induction values with
  | nil => simp [readArguments]
  | cons v values ih =>
    cases values with
    | nil =>
      rw [encode, List.length_singleton, readArguments, read_appendArg v stops]
      by_cases textual : v.all isTextChar = true
      · simpa [textual] using List.all_eq_true.mp textual
      · have stray : ¬∀ c ∈ v, isTextChar c = true := mt List.all_eq_true.mpr textual
        simpa [textual] using stray
    | cons w values =>
      have space : Stops isAstringChar (byte ' ' :: (encode (w :: values) ++ text)) :=
        .cons (by decide) _
      rw [encode, List.append_assoc, List.cons_append, List.length_cons, List.length_cons,
        readArguments, read_appendArg v space, List.forall_mem_cons, ← ih]
      by_cases textual : v.all isTextChar = true
      · rw [if_pos textual]
        simp [iff_true_intro (List.all_eq_true.mp textual)]
      · rw [if_neg textual]
        simp [mt List.all_eq_true.mpr textual]

theorem oneLine_of_text {v : Bytes} (textual : ∀ c ∈ v, isTextChar c = true) : OneLine v :=
  .of_run textChar_inline textual

theorem oneLine_appendQuoted (v : Bytes) : OneLine (appendQuoted v) ↔ OneLine v := by
  have slash : byte '\\' ≠ byte '\r' ∧ byte '\\' ≠ byte '\n' := by decide
  have written (c : UInt8) : OneLine (escape c) ↔ c ≠ byte '\r' ∧ c ≠ byte '\n' := by
    unfold escape OneLine
    split <;> simp [slash]
  change OneLine (byte '"' :: v.flatMap escape ++ [byte '"']) ↔ _
  constructor
  · intro line c member
    refine (written c).mp fun d inside => line d (List.mem_cons_of_mem _ ?_)
    exact List.mem_append_left _ (List.mem_flatMap.mpr ⟨c, member, inside⟩)
  · intro line
    refine .cons (by decide) (.append ?_ (.cons (by decide) (by simp [OneLine])))
    intro d inside
    obtain ⟨c, member, inside⟩ := List.mem_flatMap.mp inside
    exact (written c).mpr (line c member) d inside

theorem oneLine_appendArg (v : Bytes) (textual : ∀ c ∈ v, isTextChar c = true) :
    OneLine (appendArg v) := by
  rw [appendArg]
  split
  · exact oneLine_of_text textual
  · exact (oneLine_appendQuoted v).mpr (oneLine_of_text textual)

theorem oneLine_encode : ∀ values : List Bytes, (∀ v ∈ values, ∀ c ∈ v, isTextChar c = true) →
    OneLine (encode values)
  | [], _ => by simp [encode, OneLine]
  | [v], textual => oneLine_appendArg v (textual v List.mem_cons_self)
  | v :: w :: values, textual =>
    .append (oneLine_appendArg v (textual v List.mem_cons_self))
      (.cons (by decide) (oneLine_encode (w :: values) fun u member =>
        textual u (List.mem_cons_of_mem _ member)))

end Astring

namespace MailboxCommand

open Astring (encode)

def tail (command : MailboxCommand) : Bytes := command.options ++ command.marker

theorem wire_layout (command : MailboxCommand) (tag : Tag) :
    command.wire tag = tag ++ command.name ++ (encode command.arguments ++ command.tail) ++ crlf ++
    command.literal := by
  cases command with
  | append c =>
    have whole := (c.render_cuts tag).whole
    rw [List.take_length] at whole
    change (c.render tag).segments.flatten = _
    rw [Segmented.segments, whole]
    simp [AppendCommand.render, AppendCommand.line, name, arguments, encode, tail, options, marker,
      literal, ascii, crlf]
  | _ => simp [wire, request, Request.render, createCommand, renameCommand, selectCommand,
      listCommand, statusCommand, name, arguments, encode, tail, options, marker, literal, ascii, crlf]

theorem tail_stops (command : MailboxCommand) :
    Stops isAstringChar (command.tail ++ crlf ++ command.literal) := by
  intro c head
  have first : c = byte '\r' ∨ c = byte ' ' := by
    cases command with
    | append c =>
      right
      revert head
      by_cases flags : c.flags.any = true
      · intro head
        exact (Option.some.inj (by simpa [tail, options, flags, AppendCommand.appendFlags, ascii]
          using head)).symm
      · by_cases noDate : c.dateTime = []
        · intro head
          exact (Option.some.inj (by simpa [tail, options, flags, noDate, marker, ascii]
            using head)).symm
        · intro head
          exact (Option.some.inj (by simpa [tail, options, flags, noDate] using head)).symm
    | status mailbox items => exact .inr (Option.some.inj head).symm
    | _ => exact .inl (Option.some.inj head).symm
  rcases first with rfl | rfl <;> decide

theorem oneLine_items (items : StatusItems) : OneLine (appendItems items) := by
  have all : ∀ bits : UInt8, OneLine (appendItems ⟨bits⟩) := forall_byte (by decide +kernel)
  exact all items.bits

theorem oneLine_flags (flags : FlagSet) : OneLine (AppendCommand.appendFlags flags) := by
  have all : ∀ bits : UInt8, OneLine (AppendCommand.appendFlags ⟨bits⟩) :=
    forall_byte (by decide +kernel)
  exact all flags.bits

theorem oneLine_tail (command : MailboxCommand) : OneLine command.tail ↔ OneLine command.dateTime := by
  cases command with
  | append c =>
    have marker : OneLine (MailboxCommand.append c).marker := by
      refine .append (.append (.append (by decide) (decimal_inline _)) ?_) (by decide)
      cases c.literalPlus <;> decide
    have flags : OneLine (if c.flags.any then AppendCommand.appendFlags c.flags else []) := by
      split
      · exact oneLine_flags c.flags
      · exact .nil
    have date : OneLine (if c.dateTime.isEmpty then [] else byte ' ' :: appendQuoted c.dateTime) ↔
        OneLine c.dateTime := by
      cases empty : c.dateTime with
      | nil => exact Iff.rfl
      | cons d rest =>
        have space : OneLine (byte ' ' :: appendQuoted (d :: rest)) ↔
          OneLine (appendQuoted (d :: rest)) :=
          ⟨fun line c member => line c (List.mem_cons_of_mem _ member), fun line =>
            .cons (by decide) line⟩
        exact space.trans (Astring.oneLine_appendQuoted _)
    simp only [tail, options, OneLine.append_iff, flags, marker, date, true_and, and_true]
    rfl
  | status mailbox items =>
    have items := oneLine_items items
    exact iff_of_true (.append (.append (.append (by decide) items) (by decide)) .nil) .nil
  | _ => exact Iff.rfl

theorem oneLine_name : ∀ command : MailboxCommand, OneLine command.name
  | .create _ => (by decide : OneLine (ascii " CREATE "))
  | .rename _ _ => (by decide : OneLine (ascii " RENAME "))
  | .select _ => (by decide : OneLine (ascii " SELECT "))
  | .list _ _ => (by decide : OneLine (ascii " LIST "))
  | .status _ _ => (by decide : OneLine (ascii " STATUS "))
  | .append _ => (by decide : OneLine (ascii " APPEND "))

/-- The six commands keep their arguments inside the command exactly if all bytes of the mailbox
    names and patterns are TEXT-CHARs, and no CR or LF is in the date-time of APPEND. -/
theorem uninjected_iff (command : MailboxCommand) {tag : Tag}
    (plain : ∀ c ∈ tag, isAstringChar c = true) :
    command.Uninjected tag ↔
      (∀ v ∈ command.arguments, ∀ c ∈ v, isTextChar c = true) ∧ OneLine command.dateTime := by
  have layout := command.wire_layout tag
  have position : (command.wire tag).drop (tag ++ command.name).length =
      encode command.arguments ++ (command.tail ++ crlf ++ command.literal) := by
    rw [layout, List.append_assoc, List.append_assoc, List.drop_left]
    simp
  have read := Astring.readArguments_encode command.arguments command.tail_stops
  rw [← position] at read
  have start : OneLine (tag ++ command.name) :=
    .append (.of_run astringChar_inline plain) command.oneLine_name
  constructor
  · rintro ⟨⟨line, framed, inline, -⟩, arguments⟩
    have same := List.append_cancel_right (List.append_cancel_right (layout.symm.trans framed))
    have rest := (OneLine.append_iff.mp (same ▸ inline)).2
    exact ⟨read.mp arguments, (oneLine_tail command).mp (OneLine.append_iff.mp rest).2⟩
  · rintro ⟨textual, date⟩
    have inline := Astring.oneLine_encode command.arguments textual
    have tail := (oneLine_tail command).mpr date
    refine ⟨⟨_, layout, .append start (.append inline tail), ?_⟩, read.mpr textual⟩
    exact ⟨tag ++ command.name ++
      (encode command.arguments ++ command.options), by simp [MailboxCommand.tail]⟩

theorem quoted_mailbox_uninjected :
    (append ⟨ascii "Sent \"2026\"", ascii "Subject: hi\r\n\r\nhi", {}, [], false⟩).Uninjected
    (ascii "a0001") :=
  (uninjected_iff _ (by decide +kernel)).mpr (by decide +kernel)

/-- A mailbox name with a line break in it makes CREATE two commands. -/
theorem line_break_injects :
    (create (ascii "x\r\na0002 DELETE Archive\r\n")).wire (ascii "a0001") =
        ascii "a0001 CREATE \"x\r\na0002 DELETE Archive\r\n\"\r\n" ∧
      ¬(create (ascii "x\r\na0002 DELETE Archive\r\n")).Uninjected (ascii "a0001") := by
  refine ⟨by decide, fun ⟨_, after, read⟩ => ?_⟩
  have failed :
    Astring.readArguments 1
    (((create (ascii "x\r\na0002 DELETE Archive\r\n")).wire (ascii "a0001")).drop 13) =
      none := by decide
  exact Option.some_ne_none _ (read.symm.trans failed)

end MailboxCommand
end Bkmail
