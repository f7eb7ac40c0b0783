import Mathlib.Algebra.GroupWithZero.Nat
import Bkmail.Mail.Header
import Bkmail.Wire.Tags

namespace Bkmail

def isAtext (c : UInt8) : Bool :=
  byte 'A' ≤ c && c ≤ byte 'Z' || byte 'a' ≤ c && c ≤ byte 'z' || isDigit c ||
    (ascii "!#$%&'*+-/=?^_`\x7b|\x7d~").contains c

inductive DotAtom : Bytes → Prop
  | atom {text : Bytes} (some_byte : text ≠ []) (plain : text.all isAtext = true) : DotAtom text
  | dot {text rest : Bytes} (some_byte : text ≠ []) (plain : text.all isAtext = true)
      (more : DotAtom rest) :
      DotAtom (text ++ byte '.' :: rest)

/-- An address that a mail may hold. -/
structure Address.Plain (address : Address) : Prop where
  adl : address.adl = []
  mailboxName : DotAtom address.mailboxName
  hostName : DotAtom address.hostName
  returnless : byte '\r' ∉ address.displayName
  feedless : byte '\n' ∉ address.displayName

def oddQuotes (text : Bytes) : Bool := text.count (byte '"') % 2 == 1

/-- The display name is read back, by whether an address follows: what stands behind an odd number
    of its own quotes is outside of the quotes around it. -/
structure Address.Survives (address : Address) (followed : Bool) : Prop where
  unangled : byte '<' ∉ address.displayName
  commas : ∀ front back, address.displayName = front ++ byte ',' :: back → oddQuotes front = false
  quotes : followed = true → oddQuotes address.displayName = false

def AllSurvive : List Address → Prop
  | [] => True
  | address :: others => address.Survives (!others.isEmpty) ∧ AllSurvive others

namespace Fetch

section Scan

def quotedAfter (inQuote : Bool) (c : UInt8) : Bool := if c == byte '"' then !inQuote else inQuote

def anglesAfter (inQuote : Bool) (angles : Nat) (c : UInt8) : Nat :=
  let angles := if !inQuote && c == byte '<' then (angles + 1) % 2 ^ 32 else angles
  if !inQuote && c == byte '>' && 0 < angles then angles - 1 else angles

def endsItem (inQuote : Bool) (angles : Nat) (c : UInt8) : Bool :=
  !inQuote && angles == 0 && c == byte ','

/-- The state of the item loop behind some bytes, unless a comma among them ends the item. -/
def scan (inQuote : Bool) (angles : Nat) : Bytes → Option (Bool × Nat)
  | [] => some (inQuote, angles)
  | c :: rest =>
    let quoted := quotedAfter inQuote c
    let opened := anglesAfter quoted angles c
    if endsItem quoted opened c then none else scan quoted opened rest

theorem addressItems_cons (inQuote : Bool) (angles : Nat) (c : UInt8) (rest : Bytes) :
    addressItems inQuote angles (c :: rest) =
      let quoted := quotedAfter inQuote c
      let opened := anglesAfter quoted angles c
      if endsItem quoted opened c then [] :: addressItems false 0 rest
      else (addressItems quoted opened rest).modifyHead (c :: ·) := rfl

theorem addressItems_scanned {inQuote : Bool} {angles : Nat} {front : Bytes} {state : Bool × Nat}
    (scanned : scan inQuote angles front = some state) (back : Bytes) :
    addressItems inQuote angles (front ++ back) =
    (addressItems state.1 state.2 back).modifyHead (front ++ ·) := by
  induction front generalizing inQuote angles with
  | nil =>
    cases scanned
    rw [List.nil_append]
    cases addressItems inQuote angles back <;> rfl
  | cons c front ih =>
    rw [scan] at scanned
    rw [List.cons_append, addressItems_cons]
    by_cases ended :
      endsItem (quotedAfter inQuote c) (anglesAfter (quotedAfter inQuote c) angles c) c = true
    · rw [if_pos ended] at scanned
      cases scanned
    · rw [if_neg ended] at scanned
      simp only [ended, Bool.false_eq_true, ↓reduceIte, ih scanned, List.modifyHead_modifyHead]
      rfl

theorem scan_append {inQuote : Bool} {angles : Nat} {front : Bytes} {state : Bool × Nat}
    (scanned : scan inQuote angles front = some state) (back : Bytes) :
    scan inQuote angles (front ++ back) = scan state.1 state.2 back := by
  induction front generalizing inQuote angles with
  | nil => cases scanned; rfl
  | cons c front ih =>
    rw [scan] at scanned
    rw [List.cons_append, scan]
    by_cases ended :
      endsItem (quotedAfter inQuote c) (anglesAfter (quotedAfter inQuote c) angles c) c = true
    · rw [if_pos ended] at scanned
      cases scanned
    · rw [if_neg ended] at scanned
      simp only [ended, Bool.false_eq_true, ↓reduceIte, ih scanned]

def isPlain (c : UInt8) : Bool := !(c == byte '"' || c == byte '<' || c == byte '>' || c == byte ',')

theorem scan_plain {text : Bytes} (plain : text.all isPlain = true) (inQuote : Bool) (angles : Nat) :
    scan inQuote angles text = some (inQuote, angles) := by
  induction text with
  | nil => rfl
  | cons c text ih =>
    rw [List.all_cons, Bool.and_eq_true] at plain
    obtain ⟨own, others⟩ := plain
    simp only [isPlain, Bool.not_eq_true', Bool.or_eq_false_iff] at own
    simp [scan, quotedAfter, anglesAfter, endsItem, own, ih others]

theorem scan_angled {text : Bytes} (plain : text.all isPlain = true) (inQuote : Bool) :
    scan inQuote 0 (byte '<' :: text ++ [byte '>']) = some (inQuote, 0) := by
  cases inQuote with
  | true =>
    show scan true 0 (text ++ [byte '>']) = _
    rw [scan_append (scan_plain plain true 0)]
    rfl
  | false =>
    show scan false 1 (text ++ [byte '>']) = _
    rw [scan_append (scan_plain plain false 1)]
    rfl

theorem oddQuotes_cons (c : UInt8) (text : Bytes) :
    oddQuotes (c :: text) = ((c == byte '"') ^^ oddQuotes text) := by
  rw [oddQuotes, oddQuotes, List.count_cons]
  by_cases quote : c = byte '"'
  · simp only [quote, beq_self_eq_true, ↓reduceIte, Bool.true_bne]
    rcases Nat.mod_two_eq_zero_or_one (text.count (byte '"')) with even | odd
    · simp [even, Nat.add_mod]
    · simp [odd, Nat.add_mod]
  · simp [beq_false_of_ne quote]

theorem quotedAfter_odd (inQuote : Bool) (c : UInt8) (text : Bytes) :
    (quotedAfter inQuote c ^^ oddQuotes text) = (inQuote ^^ oddQuotes (c :: text)) := by
  rw [oddQuotes_cons, quotedAfter]
  by_cases quote : c = byte '"'
  · cases inQuote <;> simp [quote]
  · have other : (c == byte '"') = false := beq_false_of_ne quote
    rw [other]
    simp

theorem scan_step {c : UInt8} (other : c ≠ byte '<') (inQuote : Bool) (text : Bytes) :
    scan inQuote 0 (c :: text) =
      if quotedAfter inQuote c = false ∧ c = byte ',' then none
      else scan (quotedAfter inQuote c) 0 text := by
  have closed : anglesAfter (quotedAfter inQuote c) 0 c = 0 := by simp [anglesAfter, other]
  rw [scan]
  simp [closed, endsItem]

/-- Outside of angle brackets a display name is passed over, or broken at a comma outside of
    quotes. -/
theorem scan_display {text : Bytes} (unangled : byte '<' ∉ text) (inQuote : Bool) :
    (scan inQuote 0 text = some (inQuote ^^ oddQuotes text, 0) ∧
      ∀ front back, text = front ++ byte ',' :: back → (inQuote ^^ oddQuotes front) = true) ∨
    ∃ front back, text = front ++ byte ',' :: back ∧ (inQuote ^^ oddQuotes front) = false ∧
      scan inQuote 0 front = some (false, 0) := by
  induction text generalizing inQuote with
  | nil =>
    left
    refine ⟨by simp [scan, oddQuotes], fun front back eq => ?_⟩
    cases front <;> cases eq
  | cons c text ih =>
    have other : c ≠ byte '<' := fun same => unangled (same ▸ List.mem_cons_self)
    rw [scan_step other]
    by_cases broken : quotedAfter inQuote c = false ∧ c = byte ','
    · right
      obtain ⟨unquoted, rfl⟩ := broken
      have unquoted : inQuote = false := unquoted
      exact ⟨[], text, rfl, by simp [unquoted, oddQuotes], by rw [unquoted]; rfl⟩
    · rw [if_neg broken]
      obtain ⟨scanned, commas⟩ | ⟨front, back, rfl, unquoted, scanned⟩ :=
        ih (fun mem => unangled (List.mem_cons_of_mem c mem)) (quotedAfter inQuote c)
      · left
        refine ⟨by rw [scanned, quotedAfter_odd], fun front back eq => ?_⟩
        cases front with
        | nil =>
          obtain ⟨rfl, rfl⟩ := List.cons.inj eq
          have quoted : inQuote =
            true := by simpa [quotedAfter, show byte ',' ≠ byte '"' by decide] using broken
          simp [quoted, oddQuotes]
        | cons d front =>
          obtain ⟨rfl, rest⟩ := List.cons.inj eq
          rw [← quotedAfter_odd]
          exact commas front back rest
      · right
        refine ⟨c :: front, back, rfl, by rw [← quotedAfter_odd, unquoted], ?_⟩
        rw [scan_step other, if_neg broken, scanned]

end Scan

section Reading

theorem idxOf?_append {front : Bytes} {c : UInt8} (absent : c ∉ front) (back : Bytes) :
    (front ++ c :: back).idxOf? c = some front.length := by
  induction front with
  | nil => simp [List.idxOf?_cons]
  | cons d front ih =>
    have other : (d == c) = false := beq_false_of_ne fun same => absent (same ▸ List.mem_cons_self)
    rw [List.cons_append, List.idxOf?_cons, other, ih fun mem => absent (List.mem_cons_of_mem d mem)]
    rfl

theorem rfind_none {c : UInt8} {text : Bytes} (absent : c ∉ text) : rfind c text = none := by
  induction text with
  | nil => rfl
  | cons d text ih =>
    have other : (d == c) = false := beq_false_of_ne fun same => absent (same ▸ List.mem_cons_self)
    rw [rfind, ih fun mem => absent (List.mem_cons_of_mem d mem), other]
    rfl

theorem rfind_append (front : Bytes) {c : UInt8} {back : Bytes} (absent : c ∉ back) :
    rfind c (front ++ c :: back) = some front.length := by
  induction front with
  | nil => simp [rfind, rfind_none absent]
  | cons d front ih => simp [rfind, ih]

theorem trim_between {c d : UInt8} (text : Bytes) (first : isLwsp c = false) (last : isLwsp d = false) :
    trim (c :: text ++ [d]) = c :: text ++ [d] := by
  rw [trim, List.cons_append, List.dropWhile_cons_of_neg (by simp [first]), ← List.cons_append,
    List.rdropWhile_concat_neg _ _ _ (by simp [last])]

theorem trim_concat {c : UInt8} (blank : isLwsp c = true) (text : Bytes) :
    trim (text ++ [c]) = trim text := by
  rw [trim, trim, List.dropWhile_append]
  split
  · rename_i empty
    rw [List.isEmpty_iff] at empty
    simp [empty, blank]
  · rw [List.rdropWhile_concat_pos _ _ _ blank]

theorem trim_plain {text : Bytes} (plain : ∀ c ∈ text, isLwsp c = false) : trim text = text := by
  have front : text.dropWhile isLwsp = text := by
    cases text with
    | nil => rfl
    | cons c text => rw [List.dropWhile_cons_of_neg (by simp [plain c List.mem_cons_self])]
  rw [trim, front, List.rdropWhile_eq_self_iff]
  intro some_byte
  simp [plain _ (List.getLast_mem some_byte)]

end Reading
end Fetch

open Fetch

def isDotAtomByte (c : UInt8) : Bool := isAtext c || c == byte '.'

theorem DotAtom.some_byte {text : Bytes} (atom : DotAtom text) : text ≠ [] := by
  cases atom with
  | atom some_byte plain => exact some_byte
  | dot some_byte plain more => simp

theorem DotAtom.bytes {text : Bytes} (atom : DotAtom text) {c : UInt8} (mem : c ∈ text) :
    isDotAtomByte c = true := by
  have own : ∀ {atom : Bytes}, atom.all isAtext = true → c ∈ atom → isDotAtomByte c = true := by
    intro atom plain mem
    rw [isDotAtomByte, List.all_eq_true.mp plain c mem]
    rfl
  induction atom with
  | atom some_byte plain => exact own plain mem
  | dot some_byte plain more ih =>
    rcases List.mem_append.mp mem with mem | mem
    · exact own plain mem
    · rcases List.mem_cons.mp mem with rfl | mem
      · rfl
      · exact ih mem

namespace Address.Plain

variable {address : Address}

theorem email_eq (plain : address.Plain) :
    address.email = address.mailboxName ++ byte '@' :: address.hostName := by
  rw [Address.email]
  cases host : address.hostName with
  | nil => exact absurd host plain.hostName.some_byte
  | cons c rest => rfl

theorem email_bytes (plain : address.Plain) {c : UInt8} (mem : c ∈ address.email) :
    isDotAtomByte c = true ∨ c = byte '@' := by
  rw [plain.email_eq] at mem
  rcases List.mem_append.mp mem with mem | mem
  · exact .inl (plain.mailboxName.bytes mem)
  · rcases List.mem_cons.mp mem with rfl | mem
    · exact .inr rfl
    · exact .inl (plain.hostName.bytes mem)

theorem email_ne (plain : address.Plain) {d : UInt8} (other : isDotAtomByte d = false)
    (unlike : d ≠ byte '@') :
    d ∉ address.email := by
  intro mem
  rcases plain.email_bytes mem with own | rfl
  · rw [other] at own
    cases own
  · exact unlike rfl

theorem email_isPlain (plain : address.Plain) : address.email.all isPlain = true := by
  apply List.all_eq_true.mpr
  intro c mem
  have quote : c ≠ byte '"' := by rintro rfl; exact plain.email_ne rfl (by decide) mem
  have less : c ≠ byte '<' := by rintro rfl; exact plain.email_ne rfl (by decide) mem
  have greater : c ≠ byte '>' := by rintro rfl; exact plain.email_ne rfl (by decide) mem
  have comma : c ≠ byte ',' := by rintro rfl; exact plain.email_ne rfl (by decide) mem
  simp [isPlain, quote, less, greater, comma]

theorem email_unblank (plain : address.Plain) {c : UInt8} (mem : c ∈ address.email) :
    isLwsp c = false := by
  have space : c ≠ byte ' ' := by rintro rfl; exact plain.email_ne rfl (by decide) mem
  have tab : c ≠ byte '\t' := by rintro rfl; exact plain.email_ne rfl (by decide) mem
  have return_ : c ≠ byte '\r' := by rintro rfl; exact plain.email_ne rfl (by decide) mem
  have feed : c ≠ byte '\n' := by rintro rfl; exact plain.email_ne rfl (by decide) mem
  simp [isLwsp, space, tab, return_, feed]

theorem email_some_byte (plain : address.Plain) : address.email ≠ [] := by
  rw [plain.email_eq]
  simp

theorem rfind_email (plain : address.Plain) :
    rfind (byte '@') address.email = some address.mailboxName.length := by
  have hostless : byte '@' ∉ address.hostName := by
    intro mem
    have := plain.hostName.bytes mem
    revert this
    decide
  rw [plain.email_eq, rfind_append _ hostless]

theorem eq_of_members (plain : address.Plain) {displayName : Bytes}
    (display : address.displayName = displayName) :
    address = { displayName, mailboxName := address.email.take address.mailboxName.length,
                hostName := address.email.drop (address.mailboxName.length + 1) } := by
  have adl := plain.adl
  rw [plain.email_eq]
  cases address
  simp_all

theorem read_bare (plain : address.Plain) (display : address.displayName = []) :
    readMailAddress address.email = address := by
  have less : address.email.idxOf? (byte '<') = none :=
    List.idxOf?_eq_none_iff.mpr (plain.email_ne rfl (by decide))
  have greater : rfind (byte '>') address.email = none := rfind_none (plain.email_ne rfl (by decide))
  have trimmed : trim address.email = address.email := trim_plain fun c mem => plain.email_unblank mem
  rw [readMailAddress, less, greater]
  simp only [Option.getD_none, Nat.not_lt_zero, ↓reduceIte, trimmed, plain.rfind_email]
  exact (plain.eq_of_members display).symm

theorem read_quoted (plain : address.Plain) (unangled : byte '<' ∉ address.displayName) :
    readMailAddress (byte '"' :: address.displayName ++ ascii "\" <" ++ address.email ++
    [byte '>']) = address := by
  obtain ⟨item, item_eq⟩ :
    ∃ item, item = byte '"' :: address.displayName ++ ascii "\" <" ++ address.email ++ [byte '>'] :=
    ⟨_, rfl⟩
  obtain ⟨front, front_eq⟩ : ∃ front, front = byte '"' :: address.displayName ++ ascii "\" " := ⟨_, rfl⟩
  have angled : item = front ++ byte '<' :: (address.email ++ [byte '>']) := by
    simp [item_eq, front_eq, ascii]
  have less : item.idxOf? (byte '<') = some front.length := by
    rw [angled]
    apply idxOf?_append
    rw [front_eq]
    simp only [List.mem_append, List.mem_cons, unangled, or_false, not_or]
    exact ⟨by decide, by decide⟩
  have greater : rfind (byte '>') item = some (front.length + 1 + address.email.length) := by
    have closed : item = (front ++ byte '<' :: address.email) ++ byte '>' :: [] := by simp [angled]
    rw [closed, rfind_append _ List.not_mem_nil, List.length_append, List.length_cons]
    congr 1
    omega
  have display : trim (item.take front.length) = byte '"' :: address.displayName ++ [byte '"'] := by
    have quoted : front = byte '"' :: address.displayName ++ [byte '"'] ++
      [byte ' '] := by simp [front_eq, ascii]
    rw [angled, List.take_left, quoted, trim_concat rfl, trim_between _ rfl rfl]
  have spec : (item.drop (front.length + 1)).take (front.length + 1 + address.email.length -
    front.length - 1) =
      address.email := by
    have short :
      front.length + 1 + address.email.length - front.length - 1 = address.email.length := by omega
    have behind : item.drop (front.length + 1) = address.email ++ [byte '>'] := by simp [angled]
    rw [short, behind, List.take_left]
  have trimmed : trim address.email = address.email := trim_plain fun c mem => plain.email_unblank mem
  have inside : front.length < front.length + 1 + address.email.length := by omega
  rw [← item_eq, readMailAddress, less, greater]
  have quotes : (decide (2 ≤ (byte '"' :: address.displayName ++ [byte '"']).length) &&
      (byte '"' :: address.displayName ++ [byte '"']).head? == some (byte '"') &&
      (byte '"' :: address.displayName ++ [byte '"']).getLast? == some (byte '"')) = true := by
    rw [List.getLast?_concat]
    simp
  have unquoted : ((byte '"' :: address.displayName ++ [byte '"']).drop 1).dropLast =
    address.displayName := by simp
  simp only [Option.getD_some, display, spec, inside, ↓reduceIte, trimmed, plain.rfind_email,
    quotes, unquoted]
  exact (plain.eq_of_members rfl).symm

theorem read_rendered (plain : address.Plain) (unangled : byte '<' ∉ address.displayName) :
    readMailAddress (AppendCommand.renderAddress address) = address := by
  rw [AppendCommand.renderAddress]
  by_cases bare : address.displayName = []
  · rw [bare, List.isEmpty_nil, if_pos rfl]
    exact plain.read_bare bare
  · rw [if_neg (by simpa using bare)]
    exact plain.read_quoted unangled

theorem trim_rendered (plain : address.Plain) :
    trim (AppendCommand.renderAddress address) = AppendCommand.renderAddress address := by
  rw [AppendCommand.renderAddress]
  split
  · exact trim_plain fun c mem => plain.email_unblank mem
  · exact trim_between _ rfl rfl

theorem rendered_some_byte (plain : address.Plain) : AppendCommand.renderAddress address ≠ [] := by
  rw [AppendCommand.renderAddress]
  split
  · exact plain.email_some_byte
  · simp

theorem scan_bracketed (plain : address.Plain) (inQuote : Bool) :
    scan inQuote 0 (ascii " <" ++ address.email ++ [byte '>']) = some (inQuote, 0) := by
  have blank : scan inQuote 0 (byte ' ' :: (byte '<' :: address.email ++ [byte '>'])) =
      scan inQuote 0 (byte '<' :: address.email ++ [byte '>']) := by
    rw [scan_step (by decide), if_neg fun ended => absurd ended.2 (by decide)]
    rfl
  exact blank.trans (scan_angled plain.email_isPlain inQuote)

end Address.Plain

namespace Fetch

open AppendCommand

def addressesOf (items : List Bytes) : List Address :=
  ((items.map trim).filter (!·.isEmpty)).map readMailAddress

theorem parseRfc5322Addresses_eq (text : Bytes) :
    parseRfc5322Addresses text = addressesOf (addressItems false 0 text) :=
  rfl

theorem addressesOf_cons {item : Bytes} (some_byte : trim item ≠ []) (items : List Bytes) :
    addressesOf (item :: items) = readMailAddress (trim item) :: addressesOf items := by
  rw [addressesOf, List.map_cons, List.filter_cons_of_pos (by simpa using some_byte)]
  rfl

theorem addressesOf_space (items : List Bytes) :
    addressesOf (items.modifyHead (byte ' ' :: ·)) = addressesOf items := by
  cases items with
  | nil => rfl
  | cons item items => rfl

theorem addressItems_comma {front : Bytes} (scanned : scan false 0 front = some (false, 0))
    (back : Bytes) :
    addressItems false 0 (front ++ byte ',' :: back) = front :: addressItems false 0 back := by
  rw [addressItems_scanned scanned]
  show List.modifyHead _ ([] :: addressItems false 0 back) = _
  simp

variable {address : Address}

theorem scan_quoted (inQuote : Bool) (plain : address.Plain)
    (scanned : scan (!inQuote) 0 address.displayName =
    some (!inQuote ^^ oddQuotes address.displayName, 0)) :
    scan inQuote 0 (byte '"' :: address.displayName ++ ascii "\" <" ++ address.email ++ [byte '>']) =
      some (inQuote ^^ oddQuotes address.displayName, 0) := by
  have opened : scan inQuote 0 (byte '"' :: address.displayName) =
      some (!inQuote ^^ oddQuotes address.displayName, 0) := by
    rw [scan_step (by decide), if_neg fun ended => absurd ended.2 (by decide)]
    exact scanned
  have closed : scan inQuote 0 (byte '"' :: address.displayName ++ [byte '"']) =
      some (inQuote ^^ oddQuotes address.displayName, 0) := by
    rw [scan_append opened, scan_step (by decide), if_neg fun ended => absurd ended.2 (by decide)]
    cases inQuote <;> simp [scan, quotedAfter]
  have split : byte '"' :: address.displayName ++ ascii "\" <" ++ address.email ++ [byte '>'] =
      byte '"' :: address.displayName ++ [byte '"'] ++ (ascii " <" ++ address.email ++ [byte '>']) := by
    simp [ascii]
  rw [split, scan_append closed]
  exact plain.scan_bracketed _

theorem scan_rendered (plain : address.Plain) (unangled : byte '<' ∉ address.displayName)
    (commas : ∀ front back, address.displayName = front ++ byte ',' :: back → oddQuotes front = false) :
    scan false 0 (renderAddress address) = some (oddQuotes address.displayName, 0) := by
  rw [renderAddress]
  by_cases bare : address.displayName = []
  · rw [bare, List.isEmpty_nil, if_pos rfl, scan_plain plain.email_isPlain]
    rfl
  · rw [if_neg (by simpa using bare)]
    obtain ⟨scanned, -⟩ | ⟨front, back, eq, unquoted, -⟩ := scan_display unangled true
    · have := scan_quoted false plain scanned
      simpa using this
    · rw [commas front back eq] at unquoted
      cases unquoted

theorem parse_followed (plain : address.Plain) (survives : address.Survives true) (rest : Bytes) :
    parseRfc5322Addresses (renderAddress address ++ ascii ", " ++ rest) =
    address :: parseRfc5322Addresses rest := by
  have scanned := scan_rendered plain survives.unangled survives.commas
  rw [survives.quotes rfl] at scanned
  have split : renderAddress address ++ ascii ", " ++ rest = renderAddress address ++ byte ',' ::
      (byte ' ' :: rest) := by
    simp [ascii]
  have blank : addressItems false 0 (byte ' ' :: rest) =
    (addressItems false 0 rest).modifyHead (byte ' ' :: ·) := rfl
  rw [parseRfc5322Addresses_eq, split, addressItems_comma scanned, addressesOf_cons,
    plain.trim_rendered, plain.read_rendered survives.unangled, blank, addressesOf_space,
    parseRfc5322Addresses_eq]
  rw [plain.trim_rendered]
  exact plain.rendered_some_byte

theorem parse_last (plain : address.Plain) {followed : Bool} (survives : address.Survives followed) :
    parseRfc5322Addresses (renderAddress address) = [address] := by
  have items := addressItems_scanned (scan_rendered plain survives.unangled survives.commas) []
  rw [List.append_nil] at items
  have alone :
    (addressItems (oddQuotes address.displayName) 0 []).modifyHead (renderAddress address ++ ·) =
      [renderAddress address] := by
    rw [addressItems, List.modifyHead_cons, List.append_nil]
  rw [parseRfc5322Addresses_eq, items, alone, addressesOf_cons, plain.trim_rendered,
    plain.read_rendered survives.unangled]
  · rfl
  · rw [plain.trim_rendered]
    exact plain.rendered_some_byte

def beforeBracket (text : Bytes) : Bytes := text.takeWhile (· != byte '<')

theorem take_opened (item : Bytes) :
    item.take ((item.idxOf? (byte '<')).getD item.length) = beforeBracket item := by
  induction item with
  | nil => rfl
  | cons c item ih =>
    rw [List.idxOf?_cons, beforeBracket]
    by_cases angled : c = byte '<'
    · simp [angled]
    · rw [List.takeWhile_cons_of_pos (by simpa using angled), if_neg (by simpa using angled)]
      rw [beforeBracket] at ih
      cases found : item.idxOf? (byte '<') with
      | none =>
        rw [found] at ih
        simpa using ih
      | some pos =>
        rw [found] at ih
        simpa using ih

theorem trim_sublist (text : Bytes) : (trim text).Sublist text :=
  (List.rdropWhile_prefix isLwsp (l := _)).sublist.trans (List.dropWhile_sublist isLwsp)

theorem readMailAddress_displayName (item : Bytes) :
    (readMailAddress item).displayName =
      if (item.idxOf? (byte '<')).getD item.length < (rfind (byte '>') item).getD 0 then
        let display := trim (beforeBracket item)
        if 2 ≤ display.length && display.head? == some (byte '"') && display.getLast? ==
          some (byte '"') then
          (display.drop 1).dropLast
        else display
      else [] := by
  rw [← take_opened, readMailAddress]
  by_cases bracketed : (item.idxOf? (byte '<')).getD item.length < (rfind (byte '>') item).getD 0
  · simp only [bracketed, ↓reduceIte]
    split <;> rfl
  · simp only [bracketed, ↓reduceIte]
    split <;> rfl

theorem display_sublist (item : Bytes) :
    (readMailAddress item).displayName.Sublist (beforeBracket item) := by
  rw [readMailAddress_displayName]
  split
  · dsimp only
    split
    · exact ((List.dropLast_sublist _).trans (List.drop_sublist 1 _)).trans (trim_sublist _)
    · exact trim_sublist _
  · exact List.nil_sublist _

theorem beforeBracket_trim (item : Bytes) :
    (beforeBracket (trim item)).Sublist (beforeBracket item) := by
  have blank : ∀ c ∈ item.takeWhile isLwsp, (c != byte '<') = true := by
    intro c mem
    have := List.mem_takeWhile_imp mem
    rw [bne_iff_ne]
    rintro rfl
    revert this
    decide
  have front : beforeBracket item = item.takeWhile isLwsp ++ beforeBracket (item.dropWhile isLwsp) := by
    rw [beforeBracket, beforeBracket, ← List.takeWhile_append_of_pos blank,
      List.takeWhile_append_dropWhile]
  obtain ⟨back, split⟩ := List.rdropWhile_prefix isLwsp (l := item.dropWhile isLwsp)
  have shorter : (beforeBracket (trim item)).Sublist (beforeBracket (item.dropWhile isLwsp)) := by
    rw [← split, beforeBracket, beforeBracket, List.takeWhile_append]
    split
    · rename_i whole
      rw [trim, (List.takeWhile_sublist _).eq_of_length whole]
      exact List.sublist_append_left _ _
    · exact List.Sublist.refl _
  rw [front]
  exact shorter.trans (List.sublist_append_right _ _)

theorem unangled_display (item : Bytes) : byte '<' ∉ (readMailAddress item).displayName := by
  intro mem
  have := List.mem_takeWhile_imp ((display_sublist item).subset mem)
  simp at this

theorem rfind_lt {c : UInt8} {text : Bytes} {pos : Nat} (found : rfind c text = some pos) :
    pos < text.length := by
  induction text generalizing pos with
  | nil => cases found
  | cons d text ih =>
    rw [rfind] at found
    split at found
    · rename_i later
      cases found
      exact Nat.succ_lt_succ (ih later)
    · split at found
      · cases found
        exact Nat.succ_pos _
      · cases found

theorem display_of_unangled {item : Bytes} (unangled : byte '<' ∉ item) :
    (readMailAddress item).displayName = [] := by
  have bare : item.idxOf? (byte '<') = none := List.idxOf?_eq_none_iff.mpr unangled
  rw [readMailAddress_displayName, bare, if_neg]
  rw [Option.getD_none]
  cases found : rfind (byte '>') item with
  | none => exact Nat.not_lt_zero _
  | some pos =>
    have := rfind_lt found
    rw [Option.getD_some]
    omega

section Counting

def displays (list : List Address) : List Bytes := (list.map Address.displayName).filter (!·.isEmpty)

theorem displays_append (front back : List Address) :
    displays (front ++ back) = displays front ++ displays back := by
  simp [displays]

theorem addressesOf_append (front back : List Bytes) :
    addressesOf (front ++ back) = addressesOf front ++ addressesOf back := by
  simp [addressesOf]

theorem addressItems_ne_nil (inQuote : Bool) (angles : Nat) (text : Bytes) :
    addressItems inQuote angles text ≠ [] := by
  induction text generalizing inQuote angles with
  | nil => simp [addressItems]
  | cons c text ih =>
    rw [addressItems_cons]
    dsimp only
    split
    · simp
    · intro empty
      rw [List.modifyHead_eq_nil_iff] at empty
      exact ih _ _ empty

theorem brackets_items (inQuote : Bool) (angles : Nat) (text : Bytes) :
    ((addressItems inQuote angles text).map (List.count (byte '<'))).sum = text.count (byte '<') := by
  induction text generalizing inQuote angles with
  | nil => rfl
  | cons c text ih =>
    rw [addressItems_cons]
    dsimp only
    by_cases ended :
      endsItem (quotedAfter inQuote c) (anglesAfter (quotedAfter inQuote c) angles c) c = true
    · have comma : c = byte ',' := by
        rw [endsItem, Bool.and_eq_true] at ended
        simpa using ended.2
      rw [if_pos ended, List.map_cons, List.sum_cons, ih, comma, List.count_cons_of_ne (by decide)]
      simp
    · have own := ih (quotedAfter inQuote c) (anglesAfter (quotedAfter inQuote c) angles c)
      rw [if_neg ended]
      cases items :
        addressItems (quotedAfter inQuote c) (anglesAfter (quotedAfter inQuote c) angles c) text
        with
      | nil => exact absurd items (addressItems_ne_nil _ _ _)
      | cons item items =>
        rw [‹addressItems _ _ _ = _›, List.map_cons, List.sum_cons] at own
        rw [List.modifyHead_cons, List.map_cons, List.sum_cons, List.count_cons, List.count_cons]
        omega

/-- Each display name takes a bracket. -/
theorem displays_le (items : List Bytes) :
    (displays (addressesOf items)).length ≤ (items.map (List.count (byte '<'))).sum := by
  induction items with
  | nil => exact Nat.le_refl 0
  | cons item items ih =>
    rw [List.map_cons, List.sum_cons]
    by_cases empty : trim item = []
    · have skipped : addressesOf (item :: items) = addressesOf items := by
        rw [addressesOf, List.map_cons, empty]
        rfl
      rw [skipped]
      omega
    · rw [addressesOf_cons empty, displays, List.map_cons, List.filter_cons]
      by_cases bracket : byte '<' ∈ trim item
      · have counted : 0 < item.count (byte '<') :=
          List.count_pos_iff.mpr ((trim_sublist item).subset bracket)
        split
        · rw [List.length_cons]
          show (displays (addressesOf items)).length + 1 ≤ _
          omega
        · show (displays (addressesOf items)).length ≤ _
          omega
      · rw [display_of_unangled bracket]
        exact ih.trans (Nat.le_add_left _ _)

end Counting

section Swallowing

/-- The item of the first bracket: no item in front of it has one, and it has no more commas in
    front of the bracket than the text does. -/
theorem addressItems_bracket {text spec : Bytes} (unangled : byte '<' ∉ text)
    (plain : spec.all isPlain = true)
    (inQuote : Bool) (rest : Bytes) :
    ∃ front start more others,
      addressItems inQuote 0 (text ++ (byte '<' :: spec ++ [byte '>'] ++ rest)) =
        front ++ (start ++ (byte '<' :: spec ++ [byte '>'] ++ more)) :: others ∧
      (∀ item ∈ front, byte '<' ∉ item) ∧ byte '<' ∉ start ∧
      start.count (byte ',') ≤ text.count (byte ',') := by
  induction text generalizing inQuote with
  | nil =>
    rw [List.nil_append, addressItems_scanned (scan_angled plain inQuote)]
    cases items : addressItems inQuote 0 rest with
    | nil => exact absurd items (addressItems_ne_nil _ _ _)
    | cons more others => exact ⟨[], [], more, others, rfl, by simp, by simp, Nat.le_refl _⟩
  | cons c text ih =>
    have other : c ≠ byte '<' := fun same => unangled (same ▸ List.mem_cons_self)
    have closed : anglesAfter (quotedAfter inQuote c) 0 c = 0 := by simp [anglesAfter, other]
    have unangled : byte '<' ∉ text := fun mem => unangled (List.mem_cons_of_mem c mem)
    rw [List.cons_append, addressItems_cons]
    simp only [closed]
    by_cases ended : endsItem (quotedAfter inQuote c) 0 c = true
    · obtain ⟨front, start, more, others, items, bare, own, le⟩ := ih unangled false
      rw [if_pos ended, items]
      refine ⟨[] :: front, start, more, others, rfl, ?_, own, le.trans (List.count_le_count_cons)⟩
      intro item mem
      rcases List.mem_cons.mp mem with rfl | mem
      · simp
      · exact bare item mem
    · obtain ⟨front, start, more, others, items, bare, own, le⟩ := ih unangled (quotedAfter inQuote c)
      rw [if_neg ended, items]
      cases front with
      | nil =>
        refine ⟨[], c :: start, more, others, rfl, by simp, by simp [own, other.symm], ?_⟩
        rw [List.count_cons, List.count_cons]
        omega
      | cons item front =>
        refine ⟨(c :: item) :: front, start, more, others, rfl, ?_, own,
          le.trans (List.count_le_count_cons)⟩
        have head := bare item List.mem_cons_self
        intro other_item mem
        rcases List.mem_cons.mp mem with rfl | mem
        · simp [head, other.symm]
        · exact bare other_item (List.mem_cons_of_mem item mem)

theorem displays_bare {items : List Bytes} (bare : ∀ item ∈ items, byte '<' ∉ item) :
    displays (addressesOf items) = [] := by
  rw [displays, List.filter_eq_nil_iff]
  intro name mem
  obtain ⟨address, own, rfl⟩ := List.mem_map.mp mem
  obtain ⟨item, listed, rfl⟩ := List.mem_map.mp own
  obtain ⟨whole, original, rfl⟩ := List.mem_map.mp (List.mem_filter.mp listed).1
  rw [display_of_unangled fun bracket => bare whole original ((trim_sublist whole).subset bracket)]
  decide

theorem renderAddresses_cons (address next : Address) (others : List Address) :
    renderAddresses (address :: next :: others) = renderAddress address ++ ascii ", " ++
    renderAddresses (next :: others) :=
  rfl

/-- Of addresses without a bracket in their names, those with a name have one each. -/
theorem brackets_rendered {list : List Address} (plain : ∀ address ∈ list, address.Plain)
    (unangled : ∀ address ∈ list, byte '<' ∉ address.displayName) :
    (renderAddresses list).count (byte '<') = (displays list).length := by
  have own : ∀ address ∈ list, (renderAddress address).count (byte '<') =
      (displays [address]).length := by
    intro address mem
    have email : address.email.count (byte '<') = 0 :=
      List.count_eq_zero.mpr ((plain address mem).email_ne rfl (by decide))
    have name : address.displayName.count (byte '<') = 0 :=
      List.count_eq_zero.mpr (unangled address mem)
    rw [renderAddress]
    by_cases bare : address.displayName = []
    · simp [displays, bare, email]
    · have opened : (ascii "\" <").count (byte '<') = 1 := rfl
      rw [if_neg (by simpa using bare), List.count_append, List.count_append, List.count_append,
        List.count_cons, name, email, opened]
      simp [displays, bare]
      decide
  induction list with
  | nil => rfl
  | cons address list ih =>
    have split : displays (address :: list) = displays [address] ++ displays list :=
      displays_append [address] list
    have head := own address List.mem_cons_self
    cases list with
    | nil => exact head
    | cons next others =>
      have tail := ih (fun address mem => plain address (List.mem_cons_of_mem _ mem))
        (fun address mem => unangled address (List.mem_cons_of_mem _ mem))
        (fun address mem => own address (List.mem_cons_of_mem _ mem))
      rw [renderAddresses_cons, List.count_append, List.count_append, head, tail, split,
        List.length_append]
      rfl

def separated : List Address → Bytes
  | [] => []
  | address :: others => ascii ", " ++ renderAddresses (address :: others)

theorem renderAddresses_separated (address : Address) (others : List Address) :
    renderAddresses (address :: others) = renderAddress address ++ separated others := by
  cases others with
  | nil => rw [separated, List.append_nil]; rfl
  | cons next others => rw [renderAddresses_cons, separated, List.append_assoc]

theorem brackets_separated {list : List Address} (plain : ∀ address ∈ list, address.Plain)
    (unangled : ∀ address ∈ list, byte '<' ∉ address.displayName) :
    (separated list).count (byte '<') = (displays list).length := by
  cases list with
  | nil => rfl
  | cons address others =>
    rw [separated, List.count_append, brackets_rendered plain unangled]
    exact Nat.zero_add _

/-- A name that is broken at a comma is not among those that are read of what is behind it. -/
theorem displays_broken (plain : address.Plain) {back : Bytes} (unangled : byte '<' ∉ back)
    (fewer : back.count (byte ',') < address.displayName.count (byte ',')) {rest : Bytes}
    {others : List Address}
    (brackets : rest.count (byte '<') = (displays others).length) :
    displays (parseRfc5322Addresses (back ++ ascii "\" <" ++ address.email ++ [byte '>'] ++ rest)) ≠
      address.displayName :: displays others := by
  have unbracketed : byte '<' ∉ back ++ ascii "\" " := by
    simp only [List.mem_append, unangled, false_or]
    decide
  have split : back ++ ascii "\" <" ++ address.email ++ [byte '>'] ++ rest =
      back ++ ascii "\" " ++ (byte '<' :: address.email ++ [byte '>'] ++ rest) := by simp [ascii]
  obtain ⟨front, start, more, items, eq, bare, own, le⟩ :=
    addressItems_bracket unbracketed plain.email_isPlain false rest
  obtain ⟨item, item_eq⟩ :
    ∃ item, item = start ++ (byte '<' :: address.email ++ [byte '>'] ++ more) := ⟨_, rfl⟩
  rw [parseRfc5322Addresses_eq, split, eq, ← item_eq, addressesOf_append, displays_append,
    displays_bare bare, List.nil_append, ← List.singleton_append, addressesOf_append, displays_append]
  intro same
  have used : 0 < item.count (byte '<') := List.count_pos_iff.mpr (by simp [item_eq])
  have total :=
    brackets_items false 0 (back ++ ascii "\" " ++
    (byte '<' :: address.email ++ [byte '>'] ++ rest))
  have email : address.email.count (byte '<') = 0 :=
    List.count_eq_zero.mpr (plain.email_ne rfl (by decide))
  rw [eq, ← item_eq, List.map_append, List.sum_append, List.map_cons, List.sum_cons, List.count_append,
    List.count_eq_zero.mpr unbracketed, List.count_append, List.count_append, List.count_cons,
    email, brackets, show [byte '>'].count (byte '<') = 0 from rfl, if_pos (by decide)] at total
  have counted := displays_le items
  by_cases unnamed : displays (addressesOf [item]) = []
  · rw [unnamed, List.nil_append] at same
    rw [same, List.length_cons] at counted
    omega
  · have listed : trim item ≠ [] := by
      intro empty
      rw [addressesOf, List.map_singleton, empty] at unnamed
      exact unnamed rfl
    have named : (readMailAddress (trim item)).displayName ≠ [] := by
      intro empty
      rw [addressesOf_cons listed, displays, List.map_cons, empty] at unnamed
      exact unnamed rfl
    have head : displays (addressesOf [item]) = [(readMailAddress (trim item)).displayName] := by
      rw [addressesOf_cons listed]
      simp [displays, addressesOf, named]
    rw [head, List.singleton_append] at same
    have name := (List.cons.inj same).1
    have taken : beforeBracket item = start := by
      rw [item_eq, beforeBracket, List.takeWhile_append_of_pos]
      · simp
      · intro c mem
        rw [bne_iff_ne]
        rintro rfl
        exact own mem
    have sub := (display_sublist (trim item)).trans (beforeBracket_trim item)
    rw [taken, name] at sub
    have commas := sub.count_le (byte ',')
    have quote : (ascii "\" ").count (byte ',') = 0 := rfl
    rw [List.count_append, quote] at le
    omega

/-- An address behind an odd number of quotes is swallowed by the item before it. -/
theorem swallowed {list : List Address} (some_address : list ≠ [])
    (plain : ∀ address ∈ list, address.Plain)
    (unangled : ∀ address ∈ list, byte '<' ∉ address.displayName) :
    ∃ item items, addressItems true 0 (separated list) = item :: items ∧
      (addressesOf items = [] ∨ displays (addressesOf items) ≠ displays list) := by
  induction list with
  | nil => exact absurd rfl some_address
  | cons address others ih =>
    have own := plain address List.mem_cons_self
    have free := unangled address List.mem_cons_self
    have plain : ∀ address ∈ others, address.Plain :=
      fun address mem => plain address (List.mem_cons_of_mem _ mem)
    have unangled : ∀ address ∈ others, byte '<' ∉ address.displayName :=
      fun address mem => unangled address (List.mem_cons_of_mem _ mem)
    have brackets := brackets_separated plain unangled
    have comma : scan true 0 (ascii ", ") = some (true, 0) := rfl
    rw [separated, renderAddresses_separated, addressItems_scanned comma, renderAddress]
    by_cases bare : address.displayName = []
    · rw [bare, List.isEmpty_nil, if_pos rfl,
        addressItems_scanned (scan_plain own.email_isPlain true 0)]
      have same : displays (address :: others) = displays others := by simp [displays, bare]
      cases others with
      | nil => exact ⟨_, [], rfl, .inl rfl⟩
      | cons next others =>
        obtain ⟨item, items, eq, differ⟩ := ih (by simp) plain unangled
        rw [eq, same]
        exact ⟨_, items, rfl, differ⟩
    · have more : displays (address :: others) =
        address.displayName :: displays others := by simp [displays, bare]
      rw [if_neg (by simpa using bare), more]
      obtain ⟨scanned, -⟩ | ⟨front, back, name, -, scanned⟩ := scan_display free false
      · rw [addressItems_scanned (scan_quoted true own scanned)]
        have total := brackets_items (true ^^ oddQuotes address.displayName) 0 (separated others)
        cases eq : addressItems (true ^^ oddQuotes address.displayName) 0 (separated others) with
        | nil => exact absurd eq (addressItems_ne_nil _ _ _)
        | cons item items =>
          refine ⟨_, items, rfl, .inr fun same => ?_⟩
          have le := displays_le items
          rw [‹addressItems _ _ _ = _›, List.map_cons, List.sum_cons, brackets] at total
          rw [same, List.length_cons] at le
          omega
      · have opened : scan true 0 (byte '"' :: front) = some (false, 0) := by
          rw [scan_step (by decide), if_neg fun ended => absurd ended.2 (by decide)]
          exact scanned
        have split : byte '"' :: address.displayName ++ ascii "\" <" ++ address.email ++
          [byte '>'] ++ separated others =
            byte '"' :: front ++ byte ',' ::
            (back ++ ascii "\" <" ++ address.email ++ [byte '>'] ++ separated others) := by
          simp [name]
        rw [split, addressItems_scanned opened]
        refine ⟨_, _, rfl, .inr ?_⟩
        have behind : byte '<' ∉ back := fun mem => free (by simp [name, mem])
        have fewer : back.count (byte ',') < address.displayName.count (byte ',') := by
          rw [name, List.count_append, List.count_cons_self]
          omega
        exact displays_broken own behind fewer brackets

end Swallowing

theorem trim_some_byte {c : UInt8} (first : isLwsp c = false) (text : Bytes) :
    trim (c :: text) ≠ [] := by
  rw [trim, List.dropWhile_cons_of_neg (by simp [first]), Ne, List.rdropWhile_eq_nil_iff]
  intro blank
  rw [blank c List.mem_cons_self] at first
  cases first

theorem rendered_first (plain : address.Plain) :
    ∃ c rest, renderAddress address = c :: rest ∧ isLwsp c = false := by
  rw [renderAddress]
  split
  · cases email : address.email with
    | nil => exact absurd email plain.email_some_byte
    | cons c rest => exact ⟨c, rest, rfl, plain.email_unblank (by simp [email])⟩
  · exact ⟨_, _, rfl, rfl⟩

/-- A name that is broken at a comma is not read back. -/
theorem commas_of_parse (unangled : byte '<' ∉ address.displayName)
    {rest : Bytes} {others : List Address}
    (same : parseRfc5322Addresses (renderAddress address ++ rest) = address :: others) :
    ∀ front back, address.displayName = front ++ byte ',' :: back → oddQuotes front = false := by
  obtain ⟨-, commas⟩ | ⟨front, back, name, -, scanned⟩ := scan_display unangled true
  · intro front back eq
    simpa using commas front back eq
  · have opened : scan false 0 (byte '"' :: front) = some (false, 0) := by
      rw [scan_step (by decide), if_neg fun ended => absurd ended.2 (by decide)]
      exact scanned
    have some_byte : address.displayName ≠ [] := by simp [name]
    have split : renderAddress address ++ rest =
        byte '"' :: front ++ byte ',' ::
        (back ++ ascii "\" <" ++ address.email ++ [byte '>'] ++ rest) := by
      rw [renderAddress, if_neg (by simpa using some_byte)]
      simp [name]
    have whole : byte '<' ∉ trim (byte '"' :: front) := by
      intro mem
      rcases List.mem_cons.mp ((trim_sublist _).subset mem) with quote | mem
      · exact absurd quote (by decide)
      · exact unangled (by simp [name, mem])
    rw [parseRfc5322Addresses_eq, split, addressItems_comma opened,
      addressesOf_cons (trim_some_byte rfl front)] at same
    have head := (List.cons.inj same).1
    rw [← head, display_of_unangled whole] at some_byte
    exact absurd rfl some_byte

theorem quotes_of_parse (plain : address.Plain) {others : List Address} (some_address : others ≠ [])
    (plain_others : ∀ other ∈ others, other.Plain)
    (unangled : ∀ other ∈ address :: others, byte '<' ∉ other.displayName)
    (commas : ∀ front back, address.displayName = front ++ byte ',' :: back → oddQuotes front = false)
    (same : parseRfc5322Addresses (renderAddresses (address :: others)) = address :: others) :
    oddQuotes address.displayName = false := by
  by_contra odd
  have scanned := scan_rendered plain (unangled address List.mem_cons_self) commas
  rw [Bool.not_eq_false] at odd
  rw [odd] at scanned
  obtain ⟨item, items, eq, differ⟩ := swallowed some_address plain_others
    fun other mem => unangled other (List.mem_cons_of_mem _ mem)
  obtain ⟨c, rest, first, unblank⟩ := rendered_first plain
  have listed : trim (renderAddress address ++ item) ≠ [] := by
    rw [first]
    exact trim_some_byte unblank _
  rw [parseRfc5322Addresses_eq, renderAddresses_separated, addressItems_scanned scanned, eq,
    List.modifyHead_cons, addressesOf_cons listed] at same
  have tail := (List.cons.inj same).2
  rw [tail] at differ
  exact differ.elim some_address fun differ => differ rfl

/-- What the renderer makes of an address list is read back exactly if all display names survive. -/
theorem parse_rendered_iff {list : List Address} (plain : ∀ address ∈ list, address.Plain) :
    parseRfc5322Addresses (renderAddresses list) = list ↔ AllSurvive list := by
  constructor
  · intro same
    have unangled : ∀ address ∈ list, byte '<' ∉ address.displayName := by
      intro address mem
      rw [← same, parseRfc5322Addresses_eq] at mem
      obtain ⟨item, -, rfl⟩ := List.mem_map.mp mem
      exact unangled_display item
    induction list with
    | nil => exact True.intro
    | cons address others ih =>
      have own := plain address List.mem_cons_self
      have free := unangled address List.mem_cons_self
      have commas := commas_of_parse free ((renderAddresses_separated address others) ▸ same)
      cases others with
      | nil => exact ⟨⟨free, commas, by simp⟩, True.intro⟩
      | cons next others =>
        have even :=
          quotes_of_parse own (by simp) (fun other mem => plain other (List.mem_cons_of_mem _ mem))
          unangled commas same
        have survives : address.Survives true := ⟨free, commas, fun _ => even⟩
        rw [renderAddresses_cons, parse_followed own survives] at same
        exact ⟨survives,
          ih (fun other mem => plain other (List.mem_cons_of_mem _ mem)) (List.cons.inj same).2
          fun other mem => unangled other (List.mem_cons_of_mem _ mem)⟩
  · intro survive
    induction list with
    | nil => rfl
    | cons address others ih =>
      have own := plain address List.mem_cons_self
      obtain ⟨survives, survive⟩ := survive
      cases others with
      | nil => exact parse_last own survives
      | cons next others =>
        rw [renderAddresses_cons, parse_followed own survives,
          ih (fun other mem => plain other (List.mem_cons_of_mem _ mem)) survive]

end Fetch
end Bkmail
