import Bkmail.Response.RoundTrip
import Bkmail.Response.Structures

namespace Bkmail

open Cursor Bkmail.Fetch

section Folds

variable {σ α β γ : Type}

theorem foldl_once {apply : σ → α → σ} {get : σ → γ} {value? : α → Option β} (put : γ → β → γ)
    (step : ∀ out item, get (apply out item) = (value? item).elim (get out) (put (get out)))
    {items : List α}
    (once : items.Pairwise fun first second => value? first = none ∨ value? second = none) (out : σ) :
    get (items.foldl apply out) = (items.findSome? value?).elim (get out) (put (get out)) := by
  induction items generalizing out with
  | nil => rfl
  | cons first rest ih =>
    obtain ⟨apart, others⟩ := List.pairwise_cons.mp once
    rw [List.foldl_cons, ih others, step, List.findSome?_cons]
    cases touched : value? first with
    | none => rfl
    | some value =>
      have untouched : rest.findSome? value? = none := by
        rw [List.findSome?_eq_none_iff]
        intro item member
        exact (apart item member).resolve_left (by simp [touched])
      rw [untouched]
      rfl

theorem findSome_once {value? : α → Option β} {items : List α}
    (once : items.Pairwise fun first second => value? first = none ∨ value? second = none) {item : α}
    (member : item ∈ items) {value : β} (here : value? item = some value) :
    items.findSome? value? = some value := by
  induction items with
  | nil => cases member
  | cons first rest ih =>
    obtain ⟨apart, others⟩ := List.pairwise_cons.mp once
    rw [List.findSome?_cons]
    rcases List.mem_cons.mp member with rfl | member
    · rw [here]
    · have untouched := (apart item member).resolve_right (by simp [here])
      rw [untouched]
      exact ih others member

theorem foldlM_blocked {blocked : α → Bool} {apply : σ → α → σ} (items : List α) (out : σ) :
    items.foldlM (fun out item => if blocked item then none else some (apply out item)) out =
      if items.any blocked then none else some (items.foldl apply out) := by
  induction items generalizing out with
  | nil => rfl
  | cons first rest ih =>
    rw [List.foldlM_cons, List.any_cons]
    cases blocked first with
    | true => rfl
    | false => exact ih (apply out first)

end Folds

inductive AttributeKind where
  | flags | uid | internalDate | size | envelope | bodyStructure | bodySection
  deriving DecidableEq

inductive AttributeDatum where
  | flags (key : Keyword "FLAGS") (flags : List FlagText)
      (inside : ∀ flag ∈ flags, byte '(' ∉ flag.render)
  | uid (key : Keyword "UID") (uid : Nat) (fits : uid < 2 ^ 32)
  | internalDate (key : Keyword "INTERNALDATE") (date : WireString)
  | size (key : Keyword "RFC822.SIZE") (octets : Nat) (fits : octets < 2 ^ 64)
  | envelope (key : Keyword "ENVELOPE") (value : WireEnvelope)
  | bodyStructure (key : Keyword "BODYSTRUCTURE") (value : WireStructure)
      (shallow : value.depth ≤ kMaxBodyStructureDepth)
  | bodySection (key : Keyword "BODY") (specifier : Bytes)
      (inside : ∀ c ∈ specifier, c ≠ byte '[' ∧ c ≠ byte ']')
    (value : NString)

namespace AttributeDatum

def kind : AttributeDatum → AttributeKind
  | flags .. => .flags
  | uid .. => .uid
  | internalDate .. => .internalDate
  | size .. => .size
  | envelope .. => .envelope
  | bodyStructure .. => .bodyStructure
  | bodySection .. => .bodySection

def key : AttributeDatum → Bytes
  | flags key _ _ => key.text.bytes
  | uid key _ _ => key.text.bytes
  | internalDate key _ => key.text.bytes
  | size key _ _ => key.text.bytes
  | envelope key _ => key.text.bytes
  | bodyStructure key _ _ => key.text.bytes
  | bodySection key specifier _ _ => key.text.bytes ++ byte '[' :: (specifier ++ [byte ']'])

def valueText : AttributeDatum → Bytes
  | flags _ members _ => byte '(' :: (spaceSeparated (members.map FlagText.render) ++ [byte ')'])
  | uid _ n _ => decimal n
  | internalDate _ date => date.phrase.text
  | size _ octets _ => decimal octets
  | envelope _ value => value.phrase.text
  | bodyStructure _ value _ => value.text
  | bodySection _ _ _ value => value.phrase.text

def text (item : AttributeDatum) : Bytes := item.key ++ byte ' ' :: item.valueText

def flags? : AttributeDatum → Option (List FlagText)
  | flags _ members _ => some members
  | _ => none

def uid? : AttributeDatum → Option Nat
  | uid _ n _ => some n
  | _ => none

def internalDate? : AttributeDatum → Option Bytes
  | internalDate _ date => some date.value
  | _ => none

def size? : AttributeDatum → Option Nat
  | size _ octets _ => some octets
  | _ => none

def envelope? : AttributeDatum → Option Envelope
  | envelope _ value => some value.value
  | _ => none

def bodyStructure? : AttributeDatum → Option WireStructure
  | bodyStructure _ value _ => some value
  | _ => none

def section? : AttributeDatum → Option BodySection
  | bodySection _ specifier _ value => some ⟨specifier, value.bytes⟩
  | _ => none

end AttributeDatum

/-- The attributes of one message, in the order in which the server sends them: any number of
    sections, and of everything else one at most. -/
structure AttributeSet where
  items : List AttributeDatum
  distinct : items.Pairwise fun first second => first.kind = second.kind → first.kind = .bodySection

namespace AttributeSet

open AttributeDatum

def text (set : AttributeSet) : Bytes :=
  byte '(' :: (spaceSeparated (set.items.map AttributeDatum.text) ++ [byte ')'])

def value (set : AttributeSet) : MessageAttributes where
  flags := ((set.items.findSome? flags?).getD []).foldl FlagText.apply {}
  internalDate := (set.items.findSome? internalDate?).getD []
  rfc822Size := (set.items.findSome? size?).getD 0
  envelope := set.items.findSome? envelope?
  bodyStructure := (set.items.findSome? bodyStructure?).map WireStructure.value
  sections := set.items.filterMap section?
  uid := (set.items.findSome? uid?).getD 0

end AttributeSet

namespace AttributeDatum

theorem key_entry (item : AttributeDatum) :
    item.key.head?.any isAtomChar = true ∧ bracketDepth 0 item.key = some 0 := by
  have keyword {word : String} (name : Keyword word) (atoms : (ascii word).all isAtomChar = true)
      (letters : ascii word ≠ [])
        (plain : ((ascii word).map asciiToUpper).all (!(ascii "[] )").contains ·) = true) :
      name.text.bytes.head?.any isAtomChar = true ∧ bracketDepth 0 name.text.bytes = some 0 :=
    ⟨name.starts atoms letters, bracketDepth_plain (name.outside plain) 0⟩
  cases item with
  | flags name | uid name | internalDate name | size name | envelope name | bodyStructure name =>
    exact keyword name rfl (by decide) rfl
  | bodySection name specifier inside =>
    obtain ⟨starts, balanced⟩ := keyword name rfl (by decide) rfl
    have within (text : Bytes) (free : ∀ c ∈ text, c ≠ byte '[' ∧ c ≠ byte ']') :
        bracketDepth 1 (text ++ [byte ']']) = some 0 := by
      induction text with
      | nil => rfl
      | cons c text ih =>
        obtain ⟨own, others⟩ := List.forall_mem_cons.mp free
        rw [List.cons_append, bracketDepth_inside _ own.1 own.2, ih others]
    rw [key, bracketDepth_append, balanced]
    exact ⟨head_any_append starts _, within specifier inside⟩

theorem value_noSpace (item : AttributeDatum) (rest : Bytes) :
    Stops (· == byte ' ') (item.valueText ++ rest) := by
  have number (n : Nat) : Stops (· == byte ' ') (decimal n ++ rest) := by
    refine stops_byte (decimal_ne_nil n) (fun member => ?_) rest
    cases decimal_digits n _ member
  cases item with
  | flags => exact .cons (by decide) _
  | uid name n => exact number n
  | internalDate name date => exact date.noSpace rest
  | size name octets => exact number octets
  | envelope name value => exact Phrase.noSpace value.plain.values (Phrase.single_list _) rest
  | bodyStructure => exact .cons (by decide) _
  | bodySection name specifier inside value => exact value.noSpace rest

theorem readFlags_space (fuel : Nat) (text : Bytes) (flags : FlagSet) :
    readFlags fuel (byte ' ' :: text) flags = readFlags fuel text flags := by
  have skipped : skipSpaces (byte ' ' :: text) = skipSpaces text := by simp [skipSpaces]
  cases fuel with
  | zero => rfl
  | succ fuel => rw [readFlags, readFlags, skipped]

theorem readFlags_text (flags : List FlagText) (inside : ∀ flag ∈ flags, byte '(' ∉ flag.render)
    {fuel : Nat}
    (enough : flags.length < fuel) (set : FlagSet) (rest : Bytes) :
    readFlags fuel ((flags.map FlagText.render).flatMap (byte ' ' :: ·) ++ byte ')' :: rest) set =
      some (flags.foldl FlagText.apply set, rest) := by
  induction flags generalizing fuel set with
  | nil =>
    obtain ⟨fuel, rfl⟩ := Nat.exists_eq_succ_of_ne_zero (Nat.ne_zero_of_lt enough)
    rfl
  | cons first others ih =>
    obtain ⟨fuel, rfl⟩ := Nat.exists_eq_succ_of_ne_zero (Nat.ne_zero_of_lt enough)
    obtain ⟨own, insideOthers⟩ := List.forall_mem_cons.mp inside
    have tail := ih insideOthers (Nat.lt_of_succ_lt_succ enough) (first.apply set)
    obtain ⟨nonempty, outside⟩ := first.inside
    have letters : ∀ c ∈ first.render, c ∉ ascii " ()" := by
      intro c member stop
      have outer := outside c member
      have three : c = byte ' ' ∨ c = byte '(' ∨ c = byte ')' := by simpa [ascii] using stop
      rcases three with rfl | rfl | rfl
      · exact outer (by decide)
      · exact own member
      · exact outer (by decide)
    have stopped : ∀ c,
      ((others.map FlagText.render).flatMap (byte ' ' :: ·) ++ byte ')' :: rest).head? = some c →
        c ∈ ascii " ()" := by
      intro c head
      cases others <;> exact Option.some.inj head ▸ by decide
    rw [List.map_cons, List.flatMap_cons, List.append_assoc]
    generalize (others.map FlagText.render).flatMap (byte ' ' :: ·) ++ byte ')' :: rest =
      text at tail stopped
    have read := readUntilAny_append letters stopped
    have noSpace :=
      stops_byte nonempty (c := byte ' ') (fun member => letters _ member (by decide)) text
    have noParen :=
      stops_byte nonempty (c := byte ')') (fun member => letters _ member (by decide)) text
    rw [List.cons_append, readFlags_space, readFlags]
    simp only [skipSpaces_stops noSpace, tryConsume_stops noParen, read, mapFlag_render, tail]
    simp [nonempty]

theorem parseFlagList_text (flags : List FlagText) (inside : ∀ flag ∈ flags, byte '(' ∉ flag.render)
    (set : FlagSet)
    (rest : Bytes) :
    parseFlagList (byte '(' :: (spaceSeparated (flags.map FlagText.render) ++ [byte ')']) ++ rest) set =
      some (flags.foldl FlagText.apply set, rest) := by
  have enough : flags.length <
      (spaceSeparated (flags.map FlagText.render) ++ byte ')' :: rest).length + 1 := by
    have length := length_spaceSeparated (flags.map FlagText.render)
    simp only [List.length_map, List.length_append, List.length_cons] at length ⊢
    omega
  rw [List.cons_append, List.append_assoc, List.singleton_append, parseFlagList, tryConsume_self,
    Option.bind_some]
  generalize (spaceSeparated (flags.map FlagText.render) ++ byte ')' :: rest).length + 1 =
    fuel at enough
  have joined := spaceSeparated_read (readFlags fuel · set) (fun text => readFlags_space fuel text set)
    (flags.map FlagText.render) (byte ')' :: rest)
  exact joined.trans (readFlags_text flags inside enough set rest)

section Sink

variable (stale : Bytes → Bytes → Bytes)

/-- What the parser makes of an attribute. The section of `BODY[]` is not long enough for it. -/
def apply (out : MessageAttributes) : AttributeDatum → MessageAttributes
  | flags _ members _ => { out with flags := members.foldl FlagText.apply out.flags }
  | uid _ n _ => { out with uid := n }
  | internalDate _ date => { out with internalDate := date.value }
  | size _ octets _ => { out with rfc822Size := octets }
  | envelope _ value => { out with envelope := some value.value }
  | bodyStructure _ value _ => { out with bodyStructure := some (value.seen stale) }
  | bodySection _ specifier _ value =>
    if specifier.isEmpty then out
      else { out with sections := out.sections ++ [⟨specifier, value.bytes⟩] }

def blocked : AttributeDatum → Bool
  | bodyStructure _ value _ => value.tilde
  | _ => false

theorem keyword_noSection {word : String} (name : Keyword word)
    (plain : ((ascii word).map asciiToUpper).all (!(ascii "[] )").contains ·) = true) :
    ¬(6 < name.text.bytes.length && asciiIequals (name.text.bytes.take 5) (ascii "BODY[") &&
      name.text.bytes.getLast? == some (byte ']')) = true := by
  intro holds
  have last := beq_iff_eq.mp (Bool.and_eq_true_iff.mp holds).2
  exact name.outside plain _ (List.mem_of_getLast? last) (by decide)

theorem sink_bodySection (name : Keyword "BODY") (specifier : Bytes)
    (inside : ∀ c ∈ specifier, c ≠ byte '[' ∧ c ≠ byte ']')
    (value : NString) (fits : value.phrase.Fits) (out : MessageAttributes) {rest : Bytes}
    (delimited : Delimited rest) :
    attributesSink stale out (bodySection name specifier inside value).key (value.phrase.text ++ rest) =
      some ((bodySection name specifier inside value).apply stale out, rest) := by
  have length : name.text.bytes.length = 4 := by
    simpa [ascii] using congrArg List.length (beq_iff_eq.mp name.spells)
  by_cases empty : specifier = []
  · subst empty
    have spelled : asciiIequals (name.text.bytes ++ [byte '[', byte ']']) (ascii "BODY[]") = true := by
      rw [asciiIequals, List.map_append, beq_iff_eq.mp name.spells]
      rfl
    have skip := Phrase.skipValue_value value.plain.values value.single fits delimited
    rw [value.plain.unmarked, if_neg Bool.false_ne_true] at skip
    have short : ¬(6 < (name.text.bytes ++ [byte '[', byte ']']).length &&
        asciiIequals ((name.text.bytes ++ [byte '[', byte ']']).take 5) (ascii "BODY[") &&
        (name.text.bytes ++ [byte '[', byte ']']).getLast? == some (byte ']')) = true := by
      simp [length]
    simp only [key, List.nil_append]
    rw [attributesSink, if_neg short]
    simp only [asciiIequals_congr spelled]
    rw [if_neg (by decide), if_neg (by decide), if_neg (by decide), if_neg (by decide),
      if_neg (by decide), if_neg (by decide), skip]
    rfl
  · have front : (name.text.bytes ++ [byte '[']).length = 5 := by simp [length]
    have layout : name.text.bytes ++ byte '[' :: (specifier ++ [byte ']']) =
        name.text.bytes ++ [byte '['] ++ (specifier ++ [byte ']']) := by simp
    have spelled : asciiIequals (name.text.bytes ++ [byte '[']) (ascii "BODY[") = true := by
      rw [asciiIequals, List.map_append, beq_iff_eq.mp name.spells]
      rfl
    have long : 6 < (name.text.bytes ++ [byte '['] ++ (specifier ++ [byte ']'])).length := by
      have positive := List.length_pos_of_ne_nil empty
      simp only [List.length_append, List.length_singleton, length]
      omega
    have last : (name.text.bytes ++ [byte '['] ++ (specifier ++ [byte ']'])).getLast? =
        some (byte ']') := by
      rw [← List.append_assoc, List.getLast?_append]
      rfl
    have named : (6 < (name.text.bytes ++ [byte '['] ++ (specifier ++ [byte ']'])).length &&
        asciiIequals ((name.text.bytes ++ [byte '['] ++ (specifier ++ [byte ']'])).take 5)
        (ascii "BODY[") && (name.text.bytes ++ [byte '['] ++ (specifier ++ [byte ']'])).getLast? ==
        some (byte ']')) = true := by
      rw [List.take_left' front, spelled, last, decide_eq_true long]
      rfl
    simp only [key]
    rw [layout, attributesSink, if_pos named, value.read fits delimited.stops, List.drop_left' front,
      List.dropLast_concat, apply, if_neg (by simpa using empty)]
    rfl

theorem sink_takes (item : AttributeDatum) (short : item.valueText.length < 2 ^ 64)
    (out : MessageAttributes)
    {rest : Bytes} (delimited : Delimited rest) :
    attributesSink stale out item.key (item.valueText ++ rest) =
      (if item.blocked then none else some (item.apply stale out)).map (·, rest) := by
  have digits : Stops isDigit rest := by
    intro c head
    rcases delimited c head with rfl | rfl | rfl <;> rfl
  cases item with
  | flags name members inside =>
    simp only [key, valueText]
    rw [attributesSink, if_neg (keyword_noSection name rfl)]
    simp only [name.iequals]
    rw [if_pos (by decide), parseFlagList_text members inside]
    rfl
  | uid name n fits =>
    simp only [key, valueText]
    rw [attributesSink, if_neg (keyword_noSection name rfl)]
    simp only [name.iequals]
    rw [if_neg (by decide), if_pos (by decide),
      readNumber_decimal (Nat.lt_trans fits (by decide)) digits, succeeded_some]
    simp only [Option.map_some, Nat.mod_eq_of_lt fits]
    rfl
  | internalDate name date =>
    simp only [key, valueText]
    rw [attributesSink, if_neg (keyword_noSection name rfl)]
    simp only [name.iequals]
    rw [if_neg (by decide), if_neg (by decide), if_pos (by decide),
      date.readAstring (Phrase.fits_of_length short)]
    rfl
  | size name octets fits =>
    simp only [key, valueText]
    rw [attributesSink, if_neg (keyword_noSection name rfl)]
    simp only [name.iequals]
    rw [if_neg (by decide), if_neg (by decide), if_neg (by decide), if_pos (by decide),
      readNumber_decimal fits digits]
    rfl
  | envelope name value =>
    simp only [key, valueText]
    rw [attributesSink, if_neg (keyword_noSection name rfl)]
    simp only [name.iequals]
    rw [if_neg (by decide), if_neg (by decide), if_neg (by decide), if_neg (by decide),
      if_pos (by decide), value.read (Phrase.fits_of_length short)]
    rfl
  | bodyStructure name value shallow =>
    simp only [key, valueText]
    rw [attributesSink, if_neg (keyword_noSection name rfl)]
    simp only [name.iequals]
    rw [if_neg (by decide), if_neg (by decide), if_neg (by decide), if_neg (by decide),
      if_neg (by decide), if_pos (by decide), value.parse stale shallow short rest, blocked]
    split <;> rfl
  | bodySection name specifier inside value =>
    exact sink_bodySection stale name specifier inside value (Phrase.fits_of_length short) out delimited

end Sink

/-- The section of `BODY[]`. -/
def unnamed : AttributeDatum → Bool
  | bodySection _ specifier _ _ => specifier.isEmpty
  | _ => false

def mangled : AttributeDatum → Bool
  | bodyStructure _ value _ => value.aliased || value.tilde
  | _ => false

def named? (item : AttributeDatum) : Option BodySection := if item.unnamed then none else item.section?

section Fields

variable (stale : Bytes → Bytes → Bytes) (out : MessageAttributes) (item : AttributeDatum)

theorem apply_flags : (item.apply stale out).flags =
    item.flags?.elim out.flags fun members => members.foldl FlagText.apply out.flags := by
  cases item <;> first | rfl | exact apply_ite MessageAttributes.flags _ _ _ |>.trans (ite_self _)

theorem apply_internalDate :
    (item.apply stale out).internalDate = item.internalDate?.elim out.internalDate id := by
  cases item <;> first | rfl | exact apply_ite MessageAttributes.internalDate _ _ _ |>.trans (ite_self _)

theorem apply_rfc822Size : (item.apply stale out).rfc822Size = item.size?.elim out.rfc822Size id := by
  cases item <;> first | rfl | exact apply_ite MessageAttributes.rfc822Size _ _ _ |>.trans (ite_self _)

theorem apply_envelope : (item.apply stale out).envelope = item.envelope?.elim out.envelope some := by
  cases item <;> first | rfl | exact apply_ite MessageAttributes.envelope _ _ _ |>.trans (ite_self _)

theorem apply_bodyStructure : (item.apply stale out).bodyStructure =
    item.bodyStructure?.elim out.bodyStructure fun value => some (value.seen stale) := by
  cases item <;> first | rfl | exact apply_ite MessageAttributes.bodyStructure _ _ _ |>.trans (ite_self _)

theorem apply_uid : (item.apply stale out).uid = item.uid?.elim out.uid id := by
  cases item <;> first | rfl | exact apply_ite MessageAttributes.uid _ _ _ |>.trans (ite_self _)

theorem apply_sections : (item.apply stale out).sections = out.sections ++ item.named?.toList := by
  cases item with
  | bodySection name specifier inside value =>
    rw [apply, named?, unnamed]
    by_cases empty : specifier.isEmpty = true
    · simp [empty]
    · simp [empty, section?]
  | _ => exact (List.append_nil _).symm

end Fields
end AttributeDatum

namespace AttributeSet

open AttributeDatum

variable (set : AttributeSet)

theorem value_short (short : set.text.length < 2 ^ 64) :
    ∀ item ∈ set.items, item.valueText.length < 2 ^ 64 := by
  intro item member
  have inside := length_le_spaceSeparated (List.mem_map_of_mem member : item.text ∈
    set.items.map AttributeDatum.text)
  simp only [text, AttributeDatum.text, List.length_cons, List.length_append] at short inside
  omega

variable (stale : Bytes → Bytes → Bytes)

theorem parse (short : set.text.length < 2 ^ 64) : parseFetchAttributes stale set.text =
    if set.items.any blocked then none else some (set.items.foldl (apply stale) {}) := by
  have entry (item : AttributeDatum) : Entry item.key item.valueText :=
    ⟨item.key_entry.1, item.value_noSpace⟩
  have walk : parseFetchAttributes stale set.text =
      set.items.foldlM (fun out item => if blocked item then none
      else some (apply stale out item)) {} :=
    walk_entries (fun item _ => entry item) (fun item _ => item.key_entry.2)
      (fun item member out rest delimited =>
        item.sink_takes stale (set.value_short short item member) out delimited) {}
  exact walk.trans (foldlM_blocked set.items ({} : MessageAttributes))

theorem once {β : Type} (value? : AttributeDatum → Option β) (kind : AttributeKind)
    (single : kind ≠ .bodySection)
    (only : ∀ item, item.kind ≠ kind → value? item = none) :
    set.items.Pairwise fun first second => value? first = none ∨ value? second = none := by
  apply set.distinct.imp
  intro first second apart
  by_cases here : first.kind = kind
  · right
    apply only
    intro there
    exact single (here ▸ apart (here.trans there.symm))
  · exact .inl (only first here)

theorem sections_foldl (items : List AttributeDatum) (out : MessageAttributes) :
    (items.foldl (apply stale) out).sections = out.sections ++ items.filterMap named? := by
  induction items generalizing out with
  | nil => exact (List.append_nil _).symm
  | cons first rest ih =>
    rw [List.foldl_cons, ih, apply_sections, List.append_assoc]
    cases shown : first.named? with
    | none => rw [List.filterMap_cons_none shown]; rfl
    | some value => rw [List.filterMap_cons_some shown]; rfl

/-- What the parser fills in is what the set holds, but for the sections of `BODY[]` and for what
    the scratch buffer shows in a structure. -/
theorem filled : set.items.foldl (apply stale) {} = { set.value with
    bodyStructure := (set.items.findSome? bodyStructure?).map (WireStructure.seen stale)
    sections := set.items.filterMap named? } := by
  have flags := foldl_once (List.foldl FlagText.apply) (apply_flags stale)
    (set.once flags? .flags (by decide)
    fun item other => by cases item <;> first | rfl | exact absurd rfl other) {}
  have internalDate := foldl_once (fun _ date => date) (apply_internalDate stale)
    (set.once internalDate? .internalDate (by decide) fun item other => by
      cases item <;> first | rfl | exact absurd rfl other) {}
  have size := foldl_once (fun _ octets => octets) (apply_rfc822Size stale)
    (set.once size? .size (by decide)
    fun item other => by cases item <;> first | rfl | exact absurd rfl other) {}
  have envelope := foldl_once (fun _ => some) (apply_envelope stale)
    (set.once envelope? .envelope (by decide)
    fun item other => by cases item <;> first | rfl | exact absurd rfl other) {}
  have body :=
    foldl_once (fun _ value => some (WireStructure.seen stale value)) (apply_bodyStructure stale)
    (set.once bodyStructure? .bodyStructure (by decide) fun item other => by
      cases item <;> first | rfl | exact absurd rfl other) {}
  have uid := foldl_once (fun _ n => n) (apply_uid stale)
    (set.once uid? .uid (by decide)
    fun item other => by cases item <;> first | rfl | exact absurd rfl other) {}
  apply MessageAttributes.ext
  · rw [flags, value]
    cases set.items.findSome? flags? <;> rfl
  · rw [internalDate, value]
    cases set.items.findSome? internalDate? <;> rfl
  · rw [size, value]
    cases set.items.findSome? size? <;> rfl
  · rw [envelope, value]
    cases set.items.findSome? envelope? <;> rfl
  · rw [body]
    cases set.items.findSome? bodyStructure? <;> rfl
  · exact sections_foldl stale set.items {}
  · rw [uid, value]
    cases set.items.findSome? uid? <;> rfl

theorem bodyStructure_once : set.items.Pairwise fun first second =>
    first.bodyStructure? = none ∨ second.bodyStructure? = none :=
  set.once bodyStructure? .bodyStructure (by decide) fun item other => by
    cases item <;> first | rfl | exact absurd rfl other

/-- The sections are those on the wire exactly if none of them is that of `BODY[]`. -/
theorem sections_iff (items : List AttributeDatum) :
    items.filterMap named? = items.filterMap section? ↔ ∀ item ∈ items, item.unnamed = false := by
  constructor
  · intro same item member
    by_contra empty
    cases item with
    | bodySection name specifier inside value =>
      have sent : ⟨specifier, value.bytes⟩ ∈ items.filterMap section? :=
        List.mem_filterMap.mpr ⟨_, member, rfl⟩
      obtain ⟨other, -, kept⟩ := List.mem_filterMap.mp (same ▸ sent)
      have named : other.unnamed = false := by
        by_contra unnamed
        rw [named?, if_pos (by simpa using unnamed)] at kept
        cases kept
      rw [named?, named, if_neg Bool.false_ne_true] at kept
      cases other with
      | bodySection _ second _ _ =>
        have shared : second = specifier := congrArg BodySection.specifier (Option.some.inj kept)
        rw [unnamed, shared] at named
        exact empty named
      | _ => cases kept
    | _ => exact empty rfl
  · intro named
    apply List.filterMap_congr
    intro item member
    rw [named?, named item member, if_neg Bool.false_ne_true]

/-- A list of attributes is read back, whatever the scratch buffer shows, exactly if it has no
    section of `BODY[]` and a structure only if that is read back. -/
theorem attributes_round_trip_iff (short : set.text.length < 2 ^ 64) :
    (∀ stale, parseFetchAttributes stale set.text = some set.value) ↔
      ∀ item ∈ set.items, item.unnamed = false ∧ item.mangled = false := by
  have parse (stale : Bytes → Bytes → Bytes) := set.parse stale short
  simp only [parse, filled]
  constructor
  · intro all
    have shown := all changed
    cases stopped : set.items.any blocked with
    | true =>
      rw [stopped] at shown
      cases shown
    | false =>
      rw [stopped, if_neg Bool.false_ne_true] at shown
      have same := Option.some.inj shown
      have named := (sections_iff set.items).mp (congrArg MessageAttributes.sections same)
      intro item member
      refine ⟨named item member, ?_⟩
      cases item with
      | bodyStructure name value shallow =>
        have here := findSome_once set.bodyStructure_once member rfl
        have body := congrArg MessageAttributes.bodyStructure same
        simp only [AttributeSet.value, here, Option.map_some, Option.some.injEq] at body
        rw [mangled, value.unaliased_of_seen body]
        exact eq_false_of_ne_true (List.any_eq_false.mp stopped _ member)
      | _ => rfl
  · intro sound stale
    have unblocked : set.items.any blocked = false := by
      rw [List.any_eq_false]
      intro item member
      have plain := (sound item member).2
      cases item with
      | bodyStructure name value shallow => simpa [blocked] using (Bool.or_eq_false_iff.mp plain).2
      | _ => exact Bool.false_ne_true
    have sections := (sections_iff set.items).mpr fun item member => (sound item member).1
    have seen : (set.items.findSome? bodyStructure?).map (WireStructure.seen stale) =
        (set.items.findSome? bodyStructure?).map WireStructure.value := by
      cases found : set.items.findSome? bodyStructure? with
      | none => rfl
      | some body =>
        obtain ⟨item, member, here⟩ := List.exists_of_findSome?_eq_some found
        have plain := (sound item member).2
        cases item with
        | bodyStructure name value shallow =>
          cases here
          exact congrArg some (body.seen_unaliased stale (Bool.or_eq_false_iff.mp plain).1)
        | _ => cases here
    rw [unblocked, if_neg Bool.false_ne_true, sections, seen]
    rfl

theorem specifier_plain {specifier : Bytes}
    (plain : (specifier.all fun c => c != byte '[' && c != byte ']') = true) :
    ∀ c ∈ specifier, c ≠ byte '[' ∧ c ≠ byte ']' := by
  intro c member
  simpa using List.all_eq_true.mp plain c member

def mixedSet : AttributeSet where
  items := [
    .uid (.spelled "UID" uid_inline) 7 (by decide),
    .bodySection (.spelled "BODY" body_inline) (ascii "HEADER.FIELDS (DATE)") (specifier_plain rfl)
      (.string (.literal (ascii "Date: Mon)"))),
    .flags (.spelled "FLAGS" flags_inline) [.system .seen (.spelled "\\Seen" rfl),
    .system .draft (.spelled "\\Draft" rfl)]
      (by decide),
    .internalDate (.spelled "INTERNALDATE" rfl) (.quoted (.ofString "17-Jul-1996" (LineText.inline rfl))),
    .envelope (.spelled "ENVELOPE" envelope_inline) (.ofValue {
      date := ascii "Mon", subject := ascii "a)"
      «from» := [{ mailboxName := ascii "u", hostName := ascii "h" }] }),
    .size (.spelled "RFC822.SIZE" size_inline) 4070 (by decide),
    .bodyStructure (.spelled "BODYSTRUCTURE" rfl) (noteStructure "charset" "\"" rfl) (by decide),
    .bodySection ⟨.ofString "Body" (LineText.inline rfl), rfl⟩ (ascii "1.TEXT") (specifier_plain rfl)
      (.string (.quoted (.ofString "UID \"9\"" (LineText.inline rfl))))]
  distinct := by decide

theorem text_round_trip : parseFetchAttributes overwritten mixedSet.text = some mixedSet.value :=
  (mixedSet.attributes_round_trip_iff (by decide +kernel)).mpr (by decide +kernel) overwritten

def wholeSection : AttributeSet where
  items := [.bodySection (.spelled "BODY" body_inline) [] (List.forall_mem_nil _)
    (.string (.quoted (.ofString "hello" (LineText.inline rfl))))]
  distinct := List.pairwise_singleton _ _

/-- The section of `BODY[]` is not among those that the parser returns. -/
theorem whole_section_dropped :
    wholeSection.text = ascii "(BODY[] \"hello\")" ∧
      (parseFetchAttributes overwritten wholeSection.text).map (·.sections) = some [] ∧
      wholeSection.value.sections = [⟨[], ascii "hello"⟩] :=
  ⟨by decide +kernel, by decide +kernel, by decide +kernel⟩

end AttributeSet
end Bkmail
