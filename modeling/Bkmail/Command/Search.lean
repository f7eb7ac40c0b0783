import Bkmail.Response.Parser
import Bkmail.Response.Readers
import Mathlib.Data.List.TakeWhile

namespace Bkmail

/-! What `* SEARCH` lines add to the matches. The untagged handlers of SEARCH and UID SEARCH have
the same loop; `std::uint32_t` arithmetic wraps. -/

def isBlank (c : UInt8) : Bool := c == byte ' ' || c == byte '\r' || c == byte '\n'

def wrappedValue (digits : Bytes) : Nat :=
  digits.foldl (fun number digit => (number * 10 + (digit.toNat - 48)) % 2 ^ 32) 0

/-- One turn of the outer loop: the number it appends, and what it leaves of the payload. -/
def searchTurn (text : Bytes) : Option Nat × Bytes :=
  let text := text.dropWhile isBlank
  let digits := text.takeWhile isDigit
  (if digits.isEmpty then none else some (wrappedValue digits), text.dropWhile isDigit)

/-- The outer loop, which ends at the end of the payload and nowhere else. Nothing is returned if
    it is still running after `fuel` turns. -/
def searchLoop : Nat → Bytes → List Nat → Option (List Nat)
  | _, [], found => some found
  | 0, _ :: _, _ => none
  | fuel + 1, c :: text, found =>
    let (number, rest) := searchTurn (c :: text)
    searchLoop fuel rest (found ++ number.toList)

def SearchCommand.onUntagged (fuel : Nat) (found : List Nat) (r : UntaggedResponse) :
    Option (List Nat) :=
  if r.kind ≠ .search then some found else searchLoop fuel r.payload found

def UidSearchCommand.onUntagged (fuel : Nat) (found : List Nat) (r : UntaggedResponse) :
    Option (List Nat) :=
  if r.kind ≠ .search then some found else searchLoop fuel r.payload found

/-- The maximal digit runs of a text, in order. -/
def digitRuns (text : Bytes) : List Bytes := (text.splitOnP fun c => !isDigit c).filter (!·.isEmpty)

theorem digitRuns_cons {c : UInt8} (other : isDigit c = false) (text : Bytes) :
    digitRuns (c :: text) = digitRuns text := by
  simp [digitRuns, List.splitOnP_cons_eq_if_modifyHead, other]

theorem digitRuns_append {digits rest : Bytes} (filled : digits ≠ [])
    (all : ∀ c ∈ digits, isDigit c = true)
    (stops : Stops isDigit rest) : digitRuns (digits ++ rest) = digits :: digitRuns rest := by
  have inside : ∀ c ∈ digits, (!isDigit c) = false := fun c member => by simp [all c member]
  cases rest with
  | nil => simp [digitRuns, List.splitOnP_eq_singleton inside, filled]
  | cons c rest =>
    have other := stops c rfl
    rw [digitRuns_cons other, digitRuns,
      List.splitOnP_append_cons_of_forall_mem inside c (by simp [other])]
    simp [digitRuns, filled]

theorem digitRuns_skip (text : Bytes) : digitRuns (text.dropWhile isBlank) = digitRuns text := by
  induction text with
  | nil => rfl
  | cons c text ih =>
    by_cases blank : isBlank c = true
    · have other : ∀ c : UInt8, isBlank c = true → isDigit c = false := forall_byte (by decide +kernel)
      rw [List.dropWhile_cons_of_pos blank, ih, digitRuns_cons (other c blank)]
    · rw [List.dropWhile_cons_of_neg blank]

theorem stops_dropWhile (run : UInt8 → Bool) (text : Bytes) : Stops run (text.dropWhile run) := by
  intro c head
  simpa only [head] using List.head?_dropWhile_not run text

theorem wrappedValue_eq (digits : Bytes) : wrappedValue digits = decimalValue digits % 2 ^ 32 := by
  have wrapped (number : Nat) :
    digits.foldl (fun number digit => (number * 10 + (digit.toNat - 48)) % 2 ^ 32)
      (number % 2 ^ 32) =
        digits.foldl (fun value digit => 10 * value + (digit.toNat - 48)) number % 2 ^ 32 := by
    induction digits generalizing number with
    | nil => rfl
    | cons digit digits ih =>
      have turn : (number % 2 ^ 32 * 10 + (digit.toNat - 48)) % 2 ^ 32 =
          (10 * number + (digit.toNat - 48)) % 2 ^ 32 := by
        omega
      rw [List.foldl_cons, List.foldl_cons, turn, ih]
  exact wrapped 0

theorem searchTurn_runs (text : Bytes) :
    (searchTurn text).1.toList ++ (digitRuns (searchTurn text).2).map wrappedValue =
    (digitRuns text).map wrappedValue := by
  rw [← digitRuns_skip text]
  unfold searchTurn
  generalize text.dropWhile isBlank = text
  have split := List.takeWhile_append_dropWhile (p := isDigit) (l := text)
  by_cases filled : text.takeWhile isDigit = []
  · rw [filled, List.nil_append] at split
    simp [filled, split]
  · have all : ∀ c ∈ text.takeWhile isDigit, isDigit c = true :=
      fun c member => List.mem_takeWhile_imp member
    have runs := digitRuns_append filled all (stops_dropWhile isDigit text)
    rw [split] at runs
    simp [filled, runs]

theorem searchLoop_runs (fuel : Nat) {text : Bytes} {found result : List Nat}
    (ended : searchLoop fuel text found = some result) :
    result = found ++ (digitRuns text).map wrappedValue := by
  induction fuel generalizing text found with
  | zero =>
    cases text with
    | nil => simpa [searchLoop, digitRuns] using ended.symm
    | cons c text => cases ended
  | succ fuel ih =>
    cases text with
    | nil => simpa [searchLoop, digitRuns] using ended.symm
    | cons c text =>
      rw [ih ended, List.append_assoc]
      exact congrArg (found ++ ·) (searchTurn_runs (c :: text))

def Searchable (text : Bytes) : Prop := ∀ c ∈ text, isBlank c = true ∨ isDigit c = true

instance (text : Bytes) : Decidable (Searchable text) :=
  List.decidableBAll (fun c => isBlank c = true ∨ isDigit c = true) text

theorem Searchable.turn {text : Bytes} (plain : Searchable text) : Searchable (searchTurn text).2 :=
  fun c member => plain c (((List.dropWhile_sublist _).trans (List.dropWhile_sublist _)).mem member)

theorem Searchable.shortens {c : UInt8} {text : Bytes} (plain : Searchable (c :: text)) :
    (searchTurn (c :: text)).2.length ≤ text.length := by
  have shorter (run : UInt8 → Bool) (text : Bytes) : (text.dropWhile run).length ≤ text.length :=
    (List.dropWhile_sublist run).length_le
  by_cases blank : isBlank c = true
  · rw [searchTurn, List.dropWhile_cons_of_pos blank]
    exact Nat.le_trans (shorter isDigit _) (shorter isBlank text)
  · have digit := (plain c List.mem_cons_self).resolve_left blank
    rw [searchTurn, List.dropWhile_cons_of_neg blank, List.dropWhile_cons_of_pos digit]
    exact shorter isDigit text

theorem searchLoop_ends {text : Bytes} (plain : Searchable text) {fuel : Nat}
    (enough : text.length ≤ fuel)
    (found : List Nat) : ∃ result, searchLoop fuel text found = some result := by
  induction fuel generalizing text found with
  | zero =>
    obtain rfl := List.length_eq_zero_iff.mp (Nat.le_zero.mp enough)
    exact ⟨found, rfl⟩
  | succ fuel ih =>
    cases text with
    | nil => exact ⟨found, rfl⟩
    | cons c text => exact ih plain.turn (Nat.le_trans plain.shortens (Nat.le_of_succ_le_succ enough)) _

theorem searchLoop_stuck {text : Bytes} {c : UInt8} (member : c ∈ text)
    (other : isBlank c = false ∧ isDigit c = false)
    (fuel : Nat) (found : List Nat) : searchLoop fuel text found = none := by
  have stays (run : UInt8 → Bool) {text : Bytes} (member : c ∈ text) (outside : run c = false) :
      c ∈ text.dropWhile run := by
    rw [← List.takeWhile_append_dropWhile (p := run) (l := text), List.mem_append] at member
    refine member.resolve_left fun passed => ?_
    exact Bool.false_ne_true (outside.symm.trans (List.mem_takeWhile_imp passed))
  induction fuel generalizing text found with
  | zero =>
    cases text with
    | nil => cases member
    | cons d text => rfl
  | succ fuel ih =>
    cases text with
    | nil => cases member
    | cons d text => exact ih (stays isDigit (stays isBlank member other.1) other.2) _

/-- What the claim on a `* SEARCH` line comes to: the handler returns, with the numbers of the
    maximal digit runs behind those it had. -/
def AbsorbsRuns (onUntagged : Nat → List Nat → UntaggedResponse → Option (List Nat))
    (r : UntaggedResponse) : Prop :=
  ∀ found, ∃ fuel, onUntagged fuel found r = some (found ++ (digitRuns r.payload).map decimalValue)

theorem map_wrappedValue (runs : List Bytes) :
    runs.map wrappedValue = runs.map decimalValue ↔ ∀ run ∈ runs, decimalValue run < 2 ^ 32 := by
  rw [List.map_inj_left]
  refine forall₂_congr fun run _ => ?_
  rw [wrappedValue_eq]
  exact ⟨fun same => same ▸ Nat.mod_lt _ (by decide), Nat.mod_eq_of_lt⟩

/-- The untagged handlers of SEARCH and UID SEARCH return and append the digit runs exactly if the
    payload has only blanks and digits in it and no run is a number of 2^32 or more. -/
theorem search_absorbs_iff {r : UntaggedResponse} (search : r.kind = .search) :
    (AbsorbsRuns SearchCommand.onUntagged r ∧ AbsorbsRuns UidSearchCommand.onUntagged r) ↔
      Searchable r.payload ∧ ∀ run ∈ digitRuns r.payload, decimalValue run < 2 ^ 32 := by
  have loop : AbsorbsRuns SearchCommand.onUntagged r ↔
      ∀ found, ∃ fuel, searchLoop fuel r.payload found =
      some (found ++ (digitRuns r.payload).map decimalValue) := by
    simp [AbsorbsRuns, SearchCommand.onUntagged, search]
  have same : AbsorbsRuns UidSearchCommand.onUntagged r ↔
    AbsorbsRuns SearchCommand.onUntagged r := Iff.rfl
  rw [same, and_self, loop]
  constructor
  · intro absorbs
    obtain ⟨fuel, ended⟩ := absorbs []
    refine ⟨fun c member => ?_, ?_⟩
    · by_contra other
      rw [not_or, Bool.not_eq_true, Bool.not_eq_true] at other
      rw [searchLoop_stuck member other] at ended
      cases ended
    · have runs := searchLoop_runs fuel ended
      rw [List.nil_append, List.nil_append] at runs
      exact (map_wrappedValue _).mp runs.symm
  · rintro ⟨plain, small⟩ found
    obtain ⟨result, ended⟩ := searchLoop_ends plain (Nat.le_refl _) found
    refine ⟨r.payload.length, ended.trans (congrArg some ?_)⟩
    rw [searchLoop_runs _ ended, (map_wrappedValue _).mpr small]

theorem search_absorbs_two :
    AbsorbsRuns SearchCommand.onUntagged { kind := .search, payload := ascii "2 84 882" } ∧
    AbsorbsRuns UidSearchCommand.onUntagged { kind := .search, payload := ascii "2 84 882" } :=
  (search_absorbs_iff rfl).mpr (by decide +kernel)

/-- The extension data that CONDSTORE has behind the numbers keeps the loop running. -/
theorem search_modseq_hangs :
    Parser.parse (ascii "* SEARCH 2 (MODSEQ 5)") =
        some (.untagged { kind := .search, payload := ascii "2 (MODSEQ 5)" }) ∧
      ∀ fuel found,
        SearchCommand.onUntagged fuel found { kind := .search, payload := ascii "2 (MODSEQ 5)" } = none ∧
        UidSearchCommand.onUntagged fuel found { kind := .search, payload := ascii "2 (MODSEQ 5)" } = none := by
  have parenthesis : byte '(' ∈ ascii "2 (MODSEQ 5)" := by decide
  have stuck := searchLoop_stuck parenthesis (by decide)
  exact ⟨by decide +kernel, fun fuel found => ⟨stuck fuel found, stuck fuel found⟩⟩

end Bkmail
