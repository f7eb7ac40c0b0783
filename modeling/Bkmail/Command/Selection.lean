import Bkmail.Automaton.Folds
import Bkmail.Command.Capability
import Bkmail.Command.List
import Bkmail.Command.Snapshot

namespace Bkmail

/-! What a server says of a mailbox that it opens, as it writes it. -/

inductive MailboxLine where
  | «exists» (count : Nat) (fits : count < 2 ^ 32) (word : Keyword "EXISTS")
  | recent (count : Nat) (fits : count < 2 ^ 32) (word : Keyword "RECENT")
  | flags (word : Keyword "FLAGS") (texts : List FlagText)
  | ok (word : Keyword "OK") (text : StatusText)
  | other (response : ShallowResponse) (r : UntaggedResponse) (untagged : response.value = .untagged r)
    (silent : r.kind ≠ .exists ∧ r.kind ≠ .recent ∧ r.kind ≠ .flags ∧ r.kind ≠ .ok)

namespace MailboxLine

def response : MailboxLine → ShallowResponse
  | «exists» count fits word => .numbered count (Nat.lt_trans fits (by decide)) .exists word
  | recent count fits word => .numbered count (Nat.lt_trans fits (by decide)) .recent word
  | flags word texts =>
    .data .flags word
      (some (byte '(' :: ([byte ' '].intercalate (texts.map FlagText.render) ++ [byte ')'])))
  | ok word text => .status (.untagged .ok word) text
  | other response .. => response

def render (line : MailboxLine) : Bytes := line.response.render

def exists? : MailboxLine → Option Nat
  | «exists» count _ _ => some count
  | _ => none

def recent? : MailboxLine → Option Nat
  | recent count _ _ => some count
  | _ => none

def code? : MailboxLine → Option ResponseCode
  | ok _ text => text.code
  | _ => none

def uidValidity? (line : MailboxLine) : Option Nat :=
  match line.code? with
  | some (.uidvalidity value) => some value
  | _ => none

def uidNext? (line : MailboxLine) : Option Nat :=
  match line.code? with
  | some (.uidnext value) => some value
  | _ => none

def unseen? (line : MailboxLine) : Option Nat :=
  match line.code? with
  | some (.unseen value) => some value
  | _ => none

def permanentFlags? (line : MailboxLine) : Option FlagSet :=
  match line.code? with
  | some (.permanentflags set) => some set
  | _ => none

def names : MailboxLine → List FlagText
  | flags _ texts => texts
  | _ => []

end MailboxLine

def FlagText.is (flag : MessageFlag) : FlagText → Prop
  | system own _ => own = flag
  | other .. => False

/-- The last word of the server on everything but the flags, and the flags of all its lists. -/
structure MailboxInfo.Reports (info : MailboxInfo) (lines : List MailboxLine) : Prop where
  «exists» : info.exists = (lines.filterMap MailboxLine.exists?).getLast?.getD 0
  recent : info.recent = (lines.filterMap MailboxLine.recent?).getLast?.getD 0
  uidValidity : info.uidValidity = (lines.filterMap MailboxLine.uidValidity?).getLast?.getD 0
  uidNext : info.uidNext = (lines.filterMap MailboxLine.uidNext?).getLast?.getD 0
  unseen : info.unseen = (lines.filterMap MailboxLine.unseen?).getLast?
  permanentFlags : info.permanentFlags = (lines.filterMap MailboxLine.permanentFlags?).getLast?.getD {}
  flags : ∀ flag, info.flags.test flag = true ↔ ∃ line ∈ lines, ∃ text ∈ line.names, text.is flag

theorem FlagSet.test_set (set : FlagSet) (f g : MessageFlag) : (set.set f).test g = true ↔
    set.test g = true ∨ f = g := by
  have apart : f.bit &&& g.bit = 0 ↔ f ≠ g := by cases f <;> cases g <;> decide
  have both : (set.bits ||| f.bit) &&& g.bit = set.bits &&& g.bit ||| f.bit &&& g.bit := by
    apply UInt8.toBitVec_inj.mp
    simp only [UInt8.toBitVec_and, UInt8.toBitVec_or, BitVec.and_or_distrib_right]
  simp only [FlagSet.test, FlagSet.set, bne_iff_ne, ne_eq, both, UInt8.or_eq_zero_iff, apart]
  tauto

theorem FlagText.test_apply (set : FlagSet) (text : FlagText) (flag : MessageFlag) :
    (text.apply set).test flag = true ↔ set.test flag = true ∨ text.is flag := by
  cases text with
  | system own name => exact set.test_set own flag
  | other => simp [FlagText.apply, FlagText.is]

namespace Snapshot

theorem iequals_slash (atom name : Bytes) : asciiIequals atom (byte '\\' :: name) =
    (atom.head? == some (byte '\\') && asciiIequals (atom.drop 1) name) := by
  have slash : ∀ c : UInt8, (asciiToUpper c == byte '\\') = (c == byte '\\') :=
    forall_byte (by decide +kernel)
  cases atom with
  | nil => rfl
  | cons c rest =>
    change (asciiToUpper c == byte '\\' && rest.map asciiToUpper == name.map asciiToUpper) = _
    rw [slash]
    rfl

theorem addFlag_eq_mapFlag (atom : Bytes) (set : FlagSet) :
    addFlag atom set = Parser.mapFlag atom set := by
  have whole (name : Bytes) := iequals_slash atom name
  by_cases slash : atom.head? = some (byte '\\')
  · have behind (name : Bytes) :
      asciiIequals atom (byte '\\' :: name) = asciiIequals (atom.drop 1) name := by
      rw [whole, slash]
      rfl
    rw [addFlag, if_neg (not_not_intro slash)]
    simp only [← behind]
    rfl
  · have never (name : Bytes) : asciiIequals atom (byte '\\' :: name) = false := by
      rw [whole, beq_false_of_ne slash, Bool.false_and]
    rw [addFlag, if_pos slash]
    have seen : asciiIequals atom (ascii "\\Seen") = false := never _
    have answered : asciiIequals atom (ascii "\\Answered") = false := never _
    have flagged : asciiIequals atom (ascii "\\Flagged") = false := never _
    have deleted : asciiIequals atom (ascii "\\Deleted") = false := never _
    have draft : asciiIequals atom (ascii "\\Draft") = false := never _
    have recent : asciiIequals atom (ascii "\\Recent") = false := never _
    simp [Parser.mapFlag, seen, answered, flagged, deleted, draft, recent]

theorem parseFlagList_render (texts : List FlagText) (set : FlagSet) :
    parseFlagList (byte '(' :: ([byte ' '].intercalate (texts.map FlagText.render) ++ [byte ')'])) set =
      texts.foldl FlagText.apply set := by
  have inside : ∀ c ∈ [byte ' '].intercalate (texts.map FlagText.render), (c != byte ')') = true := by
    refine forall_mem_intercalate (fun c =>
      (c != byte ')') = true) (by decide) fun word member c there => ?_
    obtain ⟨text, -, rfl⟩ := List.mem_map.mp member
    have plain := text.inside.2 c there
    simp only [bne_iff_ne, ne_eq]
    rintro rfl
    exact plain (by decide)
  have words : ([byte ' '].intercalate (texts.map FlagText.render) ++ [byte ')']).takeWhile
    (fun c => c != byte ')') =
      [byte ' '].intercalate (texts.map FlagText.render) := takeWhile_run inside (.cons (by decide) [])
  have folded : ((texts.map FlagText.render).foldl (fun out atom => addFlag atom out) set) =
      texts.foldl FlagText.apply set := by
    rw [List.foldl_map]
    refine List.foldl_ext _ _ _ fun out text _ => ?_
    rw [addFlag_eq_mapFlag, mapFlag_render]
  have closed : ([byte ' '].intercalate (texts.map FlagText.render) ++ [byte ')']).contains
    (byte ')') = true := by simp
  change (if ([byte ' '].intercalate (texts.map FlagText.render) ++ [byte ')']).contains (byte ')')
    then _ else _) = _
  rw [if_pos closed, words]
  cases texts with
  | nil => rfl
  | cons first rest =>
    have unspaced : ∀ word ∈ (first :: rest).map FlagText.render, byte ' ' ∉ word := by
      intro word member space
      obtain ⟨text, -, rfl⟩ := List.mem_map.mp member
      exact text.inside.2 _ space (by decide)
    rw [List.splitOn_intercalate _ unspaced (by simp), folded]

/-- A line of the server, parsed and absorbed. -/
theorem onUntagged_line (line : MailboxLine) : ∃ r, untagged? line.render = some r ∧ ∀ info,
    onUntagged info r = { applyOkCode info line.code? with
      «exists» := line.exists?.getD info.exists
      recent := line.recent?.getD info.recent
      flags := line.names.foldl FlagText.apply info.flags } := by
  rw [MailboxLine.render, untagged?, parse_render]
  cases line with
  | «exists» count fits word =>
    refine ⟨_, rfl, fun info => ?_⟩
    show { info with «exists» := count % 2 ^ 32 } = _
    rw [Nat.mod_eq_of_lt fits]
    rfl
  | recent count fits word =>
    refine ⟨_, rfl, fun info => ?_⟩
    show { info with recent := count % 2 ^ 32 } = _
    rw [Nat.mod_eq_of_lt fits]
    rfl
  | flags word texts =>
    refine ⟨_, rfl, fun info => ?_⟩
    show { info with flags := parseFlagList _ info.flags } = _
    rw [Option.getD_some, parseFlagList_render]
    rfl
  | ok word text =>
    refine ⟨_, rfl, fun info => ?_⟩
    cases text with
    | plain => rfl
    | coded code => cases code <;> rfl
  | other response r untagged silent =>
    obtain ⟨messages, recents, lists, status⟩ := silent
    rw [MailboxLine.response, untagged]
    refine ⟨r, rfl, fun info => ?_⟩
    unfold onUntagged
    split
    · next same => exact absurd same messages
    · next same => exact absurd same recents
    · next same => exact absurd same lists
    · next same => exact absurd same status
    · rfl

theorem absorbed_reports (lines : List MailboxLine) :
    (absorbed ((lines.map (·.render)).filterMap untagged?)).Reports lines := by
  let step (info : MailboxInfo) (line : MailboxLine) : MailboxInfo := { applyOkCode info line.code? with
    «exists» := line.exists?.getD info.exists
    recent := line.recent?.getD info.recent
    flags := line.names.foldl FlagText.apply info.flags }
  have folded : ∀ info, ((lines.map (·.render)).filterMap untagged?).foldl onUntagged info =
      lines.foldl step info := by
    induction lines with
    | nil => exact fun _ => rfl
    | cons line lines ih =>
      intro info
      obtain ⟨r, parsed, absorbs⟩ := onUntagged_line line
      simp only [List.map_cons, List.filterMap_cons, parsed, List.foldl_cons, absorbs, ih]
      rfl
  have code {γ : Type} (get : MailboxInfo → γ) (value? : MailboxLine → Option γ)
      (steps : ∀ info line, get (step info line) = (value? line).getD (get info)) :
      get (absorbed ((lines.map (·.render)).filterMap untagged?)) =
        (lines.filterMap value?).getLast?.getD (get {}) := by
    rw [absorbed, folded]
    exact Automaton.foldl_last steps lines {}
  refine ⟨code (·.exists) _ fun _ _ => rfl, code (·.recent) _ fun _ _ => rfl,
    code (·.uidValidity) MailboxLine.uidValidity? fun info line => ?_,
    code (·.uidNext) MailboxLine.uidNext? fun info line => ?_, ?_,
    code (·.permanentFlags) MailboxLine.permanentFlags? fun info line => ?_, fun flag => ?_⟩
  · show (applyOkCode info line.code?).uidValidity = _
    rw [MailboxLine.uidValidity?]
    rcases line.code? with - | code
    · rfl
    · cases code <;> rfl
  · show (applyOkCode info line.code?).uidNext = _
    rw [MailboxLine.uidNext?]
    rcases line.code? with - | code
    · rfl
    · cases code <;> rfl
  · have last := code (·.unseen) (fun line => line.unseen?.map some) fun info line => (by
      show (applyOkCode info line.code?).unseen = _
      rw [MailboxLine.unseen?]
      rcases line.code? with - | code
      · rfl
      · cases code <;> rfl)
    rw [last, ← List.map_filterMap, List.getLast?_map]
    cases (lines.filterMap MailboxLine.unseen?).getLast? <;> rfl
  · show (applyOkCode info line.code?).permanentFlags = _
    rw [MailboxLine.permanentFlags?]
    rcases line.code? with - | code
    · rfl
    · cases code <;> rfl
  · have listed (info : MailboxInfo) (line : MailboxLine) : (step info line).flags.test flag = true ↔
        info.flags.test flag = true ∨ ∃ text ∈ line.names, text.is flag :=
      Automaton.foldl_gathers (fun set : FlagSet => set.test flag = true)
        (fun set text => FlagText.test_apply set text flag) line.names info.flags
    have gathered := Automaton.foldl_gathers (fun info : MailboxInfo =>
      info.flags.test flag = true) listed lines {}
    rw [absorbed, folded, gathered]
    have none : ¬ FlagSet.test {} flag = true := by cases flag <;> decide
    exact or_iff_right none

end Snapshot

/-- What SELECT and EXAMINE complete with when the server answers OK: the last that it said of the
    counts, of the identifiers, of the first unseen message and of the permanent flags, and the
    flags of all its lists. SELECT takes the mailbox for writable and EXAMINE for read-only, unless
    the reply says otherwise. -/
theorem selection_exact (mailbox : Bytes) (lines : List MailboxLine) (tag : AtomText)
    (noPlus : tag.bytes.head? ≠ some (byte '+')) (word : Keyword ResponseStatus.ok.name)
    (text : StatusText) :
    ∃ r selected examined,
      Parser.parse (ShallowResponse.status (.tagged tag noPlus .ok (.inl rfl) word) text).render =
      some (.tagged r) ∧ SelectCommand.onTagged mailbox
      (Snapshot.absorbed ((lines.map (·.render)).filterMap untagged?)) r =
        (none, selected) ∧
      ExamineCommand.onTagged mailbox
      (Snapshot.absorbed ((lines.map (·.render)).filterMap untagged?)) r =
        (none, examined) ∧
      selected.Reports lines ∧ selected.name = mailbox ∧
      (selected.readOnly = true ↔ text.code = some .readOnly) ∧
      examined.Reports lines ∧ examined.name = mailbox ∧
      (examined.readOnly = true ↔ text.code ≠ some .readWrite) := by
  have reports := Snapshot.absorbed_reports lines
  generalize Snapshot.absorbed ((lines.map (·.render)).filterMap untagged?) = info at reports
  refine ⟨_, _, _, parse_render _, rfl, rfl,
    ⟨reports.exists, reports.recent, reports.uidValidity, reports.uidNext,
    reports.unseen, reports.permanentFlags, reports.flags⟩, rfl, beq_iff_eq,
    ⟨reports.exists, reports.recent, reports.uidValidity, reports.uidNext, reports.unseen,
    reports.permanentFlags, reports.flags⟩, rfl, ?_⟩
  show (!(text.code == some .readWrite)) = true ↔ _
  simp

/-- `* 3 EXISTS`, `* FLAGS (\\Seen $Junk)`, `* OK [UIDNEXT 12] next`, `* 4 EXISTS`, `* FLAGS
    (\\Draft)` and a reply that makes the mailbox read-only. -/
theorem selection_exact_readOnly :
    ∃ r selected, Parser.parse (ascii "a0002 OK [READ-ONLY] done") = some (.tagged r) ∧
    SelectCommand.onTagged (ascii "INBOX")
    (Snapshot.absorbed ([ascii "* 3 EXISTS", ascii "* FLAGS (\\Seen $Junk)",
      ascii "* OK [UIDNEXT 12] next", ascii "* 4 EXISTS",
      ascii "* FLAGS (\\Draft)"].filterMap untagged?)) r =
        (none, selected) ∧
    selected.exists = 4 ∧ selected.uidNext = 12 ∧ selected.flags.test .seen = true ∧
    selected.flags.test .draft = true ∧ selected.flags.test .recent = false ∧
    selected.readOnly = true := by
  have unknown : ∀ flag : MessageFlag, asciiIequals (ascii "$Junk") (ascii flag.name) = false :=
      fun flag => by
    cases flag <;> decide
  obtain ⟨r, selected, -, parsed, done, -, reports, -, readOnly, -⟩ := selection_exact (ascii "INBOX")
    [.exists 3 (by decide) (.spelled "EXISTS" rfl),
      .flags (.spelled "FLAGS" rfl) [.system .seen (.spelled "\\Seen" rfl),
        .other (ascii "$Junk") (by decide) (by simp [ascii]; decide) unknown],
      .ok (.spelled "OK" rfl)
      (.coded (.uidnext (.spelled "UIDNEXT" rfl) 12 (by decide)) (by decide) (ascii "next")),
      .exists 4 (by decide) (.spelled "EXISTS" rfl),
      .flags (.spelled "FLAGS" rfl) [.system .draft (.spelled "\\Draft" rfl)]]
    ⟨ascii "a0002", by decide, List.all_eq_true.mp rfl⟩ (by decide) (.spelled "OK" rfl)
    (.coded (.readOnly (.spelled "READ-ONLY" rfl)) (by decide) (ascii "done"))
  refine ⟨r, selected, parsed, done, reports.exists, reports.uidNext, (reports.flags _).mpr ?_,
    (reports.flags _).mpr ?_, Bool.eq_false_iff.mpr fun recent => ?_, readOnly.mpr rfl⟩
  · exact ⟨_, List.mem_of_getElem? (i := 1) rfl, _, List.mem_cons_self, rfl⟩
  · exact ⟨_, List.mem_of_getElem? (i := 4) rfl, _, List.mem_cons_self, rfl⟩
  · simpa [MailboxLine.names, FlagText.is] using (reports.flags .recent).mp recent

end Bkmail
