import Bkmail.Response.Attributes

namespace Bkmail

open Cursor Bkmail.Fetch

theorem readKey_append {depth : Nat} {key : Bytes} (balanced : bracketDepth depth key = some 0)
    (rest : Bytes) :
    readKey depth (key ++ byte ' ' :: rest) = (key, byte ' ' :: rest) := by
  induction key generalizing depth with
  | nil =>
    cases balanced
    rfl
  | cons c key ih =>
    rw [bracketDepth] at balanced
    split at balanced
    · cases balanced
    · next inside =>
      rw [List.cons_append, readKey]
      simp only [if_neg inside, ih balanced]

theorem readKey_stops (depth : Nat) (text : Bytes) :
    (readKey depth text).2 = [] ∨ (readKey depth text).2.head? = some (byte ' ') ∨
      (readKey depth text).2.head? = some (byte ')') := by
  induction text generalizing depth with
  | nil => exact .inl rfl
  | cons c text ih =>
    rw [readKey]
    split
    · next stop =>
      rw [Bool.and_eq_true, Bool.or_eq_true, beq_iff_eq, beq_iff_eq] at stop
      exact .inr (stop.1.imp (congrArg some) (congrArg some))
    · exact ih _

theorem atomChar_bounds {c : UInt8} (atom : isAtomChar c = true) : c ≠ byte ' ' ∧ c ≠ byte ')' := by
  constructor <;> rintro rfl <;> cases atom

/-- A key and its value as they stand in an attribute list. -/
structure Entry (key value : Bytes) : Prop where
  starts : key.head?.any isAtomChar = true
  noSpace : ∀ rest, Stops (· == byte ' ') (value ++ rest)

theorem head_any_append {p : UInt8 → Bool} {front : Bytes} (starts : front.head?.any p = true)
    (back : Bytes) :
    (front ++ back).head?.any p = true := by
  cases front with
  | nil => cases starts
  | cons c front => exact starts

section Entries

variable {σ : Type} {sink : σ → Bytes → Bytes → Option (σ × Bytes)}

theorem walk_space (fuel : Nat) (out : σ) (text : Bytes) :
    walkAttributes sink fuel out (byte ' ' :: text) = walkAttributes sink fuel out text := by
  have skipped : skipSpaces (byte ' ' :: text) = skipSpaces text := by simp [skipSpaces]
  cases fuel with
  | zero => rfl
  | succ fuel => rw [walkAttributes, walkAttributes, skipped]

theorem walk_turn {text : Bytes} (starts : text.head?.any isAtomChar = true) (fuel : Nat) (out : σ) :
    walkAttributes sink (fuel + 1) out text =
      if (readKey 0 text).1.isEmpty then none
      else (sink out (readKey 0 text).1 (skipSpaces (readKey 0 text).2)).bind
        fun (out, rest) => walkAttributes sink fuel out rest := by
  cases text with
  | nil => cases starts
  | cons c text =>
    obtain ⟨noSpace, noClosing⟩ := atomChar_bounds (c := c) (by simpa using starts)
    have stops : Stops (· == byte ' ') (c :: text) := .cons (by simpa using noSpace) _
    rw [walkAttributes, skipSpaces_stops stops]
    simp [noClosing]

theorem walk_step {key value : Bytes} (entry : Entry key value)
    (balanced : bracketDepth 0 key = some 0) (fuel : Nat)
    (out : σ) (rest : Bytes) : walkAttributes sink (fuel + 1) out (key ++ byte ' ' :: value ++ rest) =
      (sink out key (value ++ rest)).bind fun (out, rest) => walkAttributes sink fuel out rest := by
  have nonempty : key.isEmpty = false := by
    cases key with
    | nil => cases entry.starts
    | cons c key => rfl
  rw [List.append_assoc, walk_turn (head_any_append entry.starts _), List.cons_append,
    readKey_append balanced]
  simp only [nonempty, skipSpaces_space (entry.noSpace rest), Bool.false_eq_true, if_false]

theorem walk_lost (ends : ∀ out key text, text = [] ∨ text.head? = some (byte ')') →
    sink out key text = none)
    {text : Bytes} (starts : text.head?.any isAtomChar = true)
    (lost : (readKey 0 text).2.head? ≠ some (byte ' '))
    (fuel : Nat) (out : σ) : walkAttributes sink (fuel + 1) out text = none := by
  have stops : Stops (· == byte ' ') (readKey 0 text).2 := by
    intro c head
    rw [head] at lost
    simpa using lost
  have after : (readKey 0 text).2 = [] ∨ (readKey 0 text).2.head? = some (byte ')') := by
    rcases readKey_stops 0 text with whole | space | closing
    · exact .inl whole
    · exact absurd space lost
    · exact .inr closing
  rw [walk_turn starts, skipSpaces_stops stops, ends _ _ _ after]
  split <;> rfl

variable {α : Type} {key value : α → Bytes} {items : List α} {step : σ → α → Option σ}

theorem others_delimited (items : List α) :
    Delimited ((items.map fun item => key item ++ byte ' ' :: value item).flatMap (byte ' ' :: ·) ++
    [byte ')']) := by
  cases items with
  | nil => exact .closing _
  | cons next items => exact .space _

theorem walk_items (entries : ∀ item ∈ items, Entry (key item) (value item))
    (balanced : ∀ item ∈ items, bracketDepth 0 (key item) = some 0)
    (takes : ∀ item ∈ items, ∀ out rest, Delimited rest →
      sink out (key item) (value item ++ rest) = (step out item).map (·, rest))
    {fuel : Nat} (enough : items.length < fuel) (out : σ) : walkAttributes sink fuel out
      ((items.map fun item => key item ++ byte ' ' :: value item).flatMap (byte ' ' :: ·) ++
        [byte ')']) =
        items.foldlM step out := by
  induction items generalizing fuel out with
  | nil =>
    obtain ⟨fuel, rfl⟩ := Nat.exists_eq_succ_of_ne_zero (Nat.ne_zero_of_lt enough)
    rfl
  | cons first items ih =>
    obtain ⟨fuel, rfl⟩ := Nat.exists_eq_succ_of_ne_zero (Nat.ne_zero_of_lt enough)
    obtain ⟨entry, others⟩ := List.forall_mem_cons.mp entries
    obtain ⟨closed, balancedRest⟩ := List.forall_mem_cons.mp balanced
    obtain ⟨takesFirst, takesRest⟩ := List.forall_mem_cons.mp takes
    rw [List.map_cons, List.flatMap_cons, List.append_assoc, List.cons_append, walk_space,
      walk_step entry closed, takesFirst out _ (others_delimited items), List.foldlM_cons]
    cases step out first with
    | none => rfl
    | some out => exact ih others balancedRest takesRest (Nat.lt_of_succ_lt_succ enough) out

theorem walk_entries (entries : ∀ item ∈ items, Entry (key item) (value item))
    (balanced : ∀ item ∈ items, bracketDepth 0 (key item) = some 0)
    (takes : ∀ item ∈ items, ∀ out rest, Delimited rest →
      sink out (key item) (value item ++ rest) = (step out item).map (·, rest)) (out : σ) :
    walkFetchAttributes sink out
      (byte '(' ::
        (spaceSeparated (items.map fun item => key item ++ byte ' ' :: value item) ++ [byte ')'])) =
        items.foldlM step out := by
  have enough : items.length <
      (spaceSeparated (items.map fun item => key item ++ byte ' ' :: value item) ++
      [byte ')']).length + 1 := by
    have length := length_spaceSeparated (items.map fun item => key item ++ byte ' ' :: value item)
    simp only [List.length_map, List.length_append, List.length_singleton] at length ⊢
    omega
  have walk := walk_items entries balanced takes enough out
  rw [← spaceSeparated_read _ (walk_space _ out)] at walk
  rw [walkFetchAttributes, tryConsume_self]
  exact walk

/-- The walk fails at the first attribute that the sink fails on, or whose brackets do not balance,
    unless a key ends at a space that the walk takes for the end of an unbalanced one. -/
theorem walk_fails (entries : ∀ item ∈ items, Entry (key item) (value item))
    (takes : ∀ item ∈ items, ∀ out rest, Delimited rest →
      sink out (key item) (value item ++ rest) = (step out item).map (·, rest))
    (ends : ∀ out key text, text = [] ∨ text.head? = some (byte ')') → sink out key text = none)
    (runs : ∀ front item back, items = front ++ item :: back → bracketDepth 0 (key item) ≠ some 0 →
      (readKey 0 (spaceSeparated ((item :: back).map fun item => key item ++ byte ' ' :: value item) ++
        [byte ')'])).2.head? ≠ some (byte ' '))
    (offends : ∃ item ∈ items, bracketDepth 0 (key item) ≠ some 0 ∨ ∀ out, step out item = none)
    (fuel : Nat) (out : σ) :
    walkAttributes sink fuel out
      ((items.map fun item => key item ++ byte ' ' :: value item).flatMap (byte ' ' :: ·) ++
        [byte ')']) = none := by
  induction items generalizing fuel out with
  | nil =>
    obtain ⟨item, member, -⟩ := offends
    cases member
  | cons first items ih =>
    obtain ⟨entry, others⟩ := List.forall_mem_cons.mp entries
    obtain ⟨takesFirst, takesRest⟩ := List.forall_mem_cons.mp takes
    rw [List.map_cons, List.flatMap_cons, List.append_assoc, List.cons_append, walk_space]
    cases fuel with
    | zero => rfl
    | succ fuel =>
      by_cases closed : bracketDepth 0 (key first) = some 0
      · rw [walk_step entry closed, takesFirst out _ (others_delimited items)]
        cases stepped : step out first with
        | none => rfl
        | some next =>
          refine ih others takesRest (fun front item back split => ?_) ?_ fuel next
          · exact runs (first :: front) item back (by rw [split, List.cons_append])
          · obtain ⟨item, member, offence⟩ := offends
            rcases List.mem_cons.mp member with rfl | member
            · rcases offence with unbalanced | fails
              · exact absurd closed unbalanced
              · cases (fails out).symm.trans stepped
            · exact ⟨item, member, offence⟩
      · have lost := runs [] first items rfl closed
        rw [List.map_cons, spaceSeparated, List.append_assoc] at lost
        rw [List.append_assoc] at lost ⊢
        exact walk_lost ends (head_any_append entry.starts _) lost fuel out

end Entries

theorem Keyword.outside {word : String} (keyword : Keyword word)
    (letters : ((ascii word).map asciiToUpper).all (!(ascii "[] )").contains ·) = true) :
    ∀ c ∈ keyword.text.bytes, c ∉ ascii "[] )" := by
  have upper : ∀ c : UInt8, asciiToUpper c ∉ ascii "[] )" → c ∉ ascii "[] )" :=
    forall_byte (by decide +kernel)
  intro c member
  refine upper c ?_
  simpa using List.all_eq_true.mp letters _ (beq_iff_eq.mp keyword.spells ▸ List.mem_map_of_mem member)

theorem Keyword.starts {word : String} (keyword : Keyword word)
    (atoms : (ascii word).all isAtomChar = true)
    (filled : ascii word ≠ []) : keyword.text.bytes.head?.any isAtomChar = true := by
  obtain ⟨c, tail, shape⟩ := List.exists_cons_of_ne_nil (keyword.nonempty filled)
  have first := keyword.atoms (List.all_eq_true.mp atoms) c (by rw [shape]; exact List.mem_cons_self)
  rw [shape]
  exact first

theorem FetchAttribute.key_starts (item : FetchAttribute) : item.key.head?.any isAtomChar = true := by
  cases item with
  | flags name | uid name | internalDate name | size name | envelope name =>
      exact name.starts rfl (by decide)
  | body name =>
    cases name with
    | inl name => exact name.starts rfl (by decide)
    | inr name => exact name.starts rfl (by decide)
  | bodySection name spec origin =>
    rw [key, List.append_assoc]
    exact head_any_append (name.starts rfl (by decide)) _
  | other name => exact name.starts

mutual

theorem SExpression.values : ∀ value : SExpression, value.phrase.Values ∧ value.phrase.Single
  | .atom name => by
    rw [phrase]
    exact ⟨.atom name.nonempty name.atoms, True.intro⟩
  | .flag name => by
    rw [phrase]
    exact ⟨.flag name.bytes, True.intro⟩
  | .string value => by
    rw [phrase]
    exact ⟨value.plain.values, by cases value <;> exact True.intro⟩
  | .list members => by
    rw [phrase]
    exact ⟨(Phrase.values_list _).mpr (SExpression.members_values members), Phrase.single_list _⟩

theorem SExpression.members_values : ∀ members, ∀ phrase ∈ SExpression.phrases members, phrase.Values
  | [] => by simp [phrases]
  | first :: rest => by
    rw [phrases, List.forall_mem_cons]
    exact ⟨first.values.1, SExpression.members_values rest⟩

end

theorem NString.single (value : NString) : value.phrase.Single := by
  cases value with
  | nil => exact True.intro
  | string value => cases value <;> exact True.intro

theorem Phrase.noSpace {phrase : Phrase} (values : phrase.Values) (single : phrase.Single)
    (rest : Bytes) :
    Stops (· == byte ' ') (phrase.text ++ rest) := by
  cases phrase with
  | word line =>
    obtain ⟨c, tail, shape, noSpace, -⟩ := ValueWord.head values
    rw [text_word, shape]
    refine .cons ?_ _
    simpa using noSpace
  | literal octets =>
    rw [text_literal]
    exact .cons (by decide) _
  | unit => exact .cons (by decide) _
  | group inner =>
    rw [text_group]
    exact .cons (by decide) _
  | spaced | adjoined | suffixed => cases single

namespace FetchAttribute

theorem value_values (item : FetchAttribute) : item.value.Values ∧ item.value.Single := by
  cases item with
  | flags name members => exact SExpression.values _
  | uid name n | size name n => exact ⟨(number_plain n).values, True.intro⟩
  | internalDate name date => exact ⟨.quoted date, True.intro⟩
  | envelope name value => exact ⟨value.plain.values, True.intro⟩
  | body name value => exact ⟨value.plain.values, True.intro⟩
  | bodySection name spec origin value => exact ⟨value.plain.values, value.single⟩
  | other name value => exact value.values

variable {σ : Type} {sink : σ → Bytes → Bytes → Option (σ × Bytes)}

theorem entry (item : FetchAttribute) : Entry item.key item.value.text :=
  ⟨item.key_starts, item.value.noSpace item.value_values.1 item.value_values.2⟩

end FetchAttribute

theorem length_le_spaceSeparated {word : Bytes} {words : List Bytes} (member : word ∈ words) :
    word.length ≤ (spaceSeparated words).length := by
  cases words with
  | nil => cases member
  | cons first rest =>
    rw [spaceSeparated, List.length_append]
    rcases List.mem_cons.mp member with rfl | member
    · exact Nat.le_add_right _ _
    · have inside : (byte ' ' :: word).Sublist (rest.flatMap (byte ' ' :: ·)) := by
        rw [List.flatMap_def]
        exact List.sublist_flatten_of_mem (List.mem_map_of_mem member)
      have length := inside.length_le
      rw [List.length_cons] at length
      omega

theorem FetchAttribute.value_fits {items : List FetchAttribute}
    (fits : (attrList items).length < 2 ^ 64) :
    ∀ item ∈ items, item.value.Fits := by
  intro item member octets literal
  have text := length_le_spaceSeparated (List.mem_map_of_mem member : item.text ∈
    items.map FetchAttribute.text)
  have value := Phrase.literal_length literal
  simp only [attrList, remaining, FetchAttribute.text, List.length_cons,
    List.length_append] at fits text
  omega

end Bkmail
