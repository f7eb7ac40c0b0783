import Bkmail.Response.Fetch
import Bkmail.Response.Readers

namespace Bkmail

open Cursor

theorem skipSpaces_le (text : Bytes) : (skipSpaces text).length ≤ text.length :=
  (List.dropWhile_sublist _).length_le

theorem tryConsume_shorter {c : UInt8} {text rest : Bytes} (consumed : tryConsume c text = some rest) :
    rest.length < text.length := by
  cases text with
  | nil => cases consumed
  | cons d text =>
    rw [tryConsume] at consumed
    split at consumed
    · cases consumed
      exact Nat.lt_succ_self _
    · cases consumed

theorem readAtom_shorter {text : Bytes} (filled : (readAtom text).1.isEmpty = false) :
    (readAtom text).2.length < text.length := by
  have split := congrArg List.length (List.takeWhile_append_dropWhile (p := isAtomChar) (l := text))
  have positive := List.length_pos_of_ne_nil (by simpa using filled : (readAtom text).1 ≠ [])
  simp only [readAtom, List.length_append] at split positive ⊢
  omega

theorem readQuotedBody_le (text : Bytes) : (readQuotedBody text).2.length ≤ text.length := by
  fun_induction readQuotedBody text <;> simp_all <;> omega

theorem readQuoted_shorter {text value rest : Bytes} (read : readQuoted text = (some value, rest)) :
    rest.length < text.length := by
  rw [readQuoted] at read
  split at read
  · cases read
  · next inner consumed =>
    have inside := readQuotedBody_le inner
    rw [read] at inside
    exact Nat.lt_of_le_of_lt inside (tryConsume_shorter consumed)

theorem tryConsume_getD_le (c : UInt8) (text : Bytes) :
    ((tryConsume c text).getD text).length ≤ text.length := by
  cases consumed : tryConsume c text with
  | none => exact Nat.le_refl _
  | some rest => exact Nat.le_of_lt (tryConsume_shorter consumed)

theorem readLiteral_shorter {text value rest : Bytes} (read : readLiteral text = (some value, rest)) :
    rest.length < text.length := by
  rw [readLiteral] at read
  split at read
  · cases read
  · next marker consumed =>
    have start := Nat.lt_of_lt_of_le (tryConsume_shorter consumed) (tryConsume_getD_le _ text)
    have behind := Nat.le_trans (tryConsume_getD_le (byte '+') (marker.dropWhile isDigit))
      (List.dropWhile_sublist isDigit).length_le
    dsimp only at read
    split at read
    · cases read
    · split at read
      · cases read
      · split at read
        · next brace cr lf octets shape =>
          split at read
          · cases read
            rw [shape] at behind
            simp only [List.length_cons, List.length_drop] at behind ⊢
            omega
          · cases read
        · cases read

namespace Fetch

theorem succeeded_iff {α : Type} {result : Option α × Bytes} {value : α} {rest : Bytes} :
    succeeded result = some (value, rest) ↔ result = (some value, rest) := by
  obtain ⟨found, after⟩ := result
  cases found <;> simp [succeeded]

theorem succeeded_snd {α : Type} {result : Option α × Bytes} {rest : Bytes}
    (skipped : (succeeded result).map Prod.snd = some rest) : ∃ value, result = (some value, rest) := by
  obtain ⟨⟨value, after⟩, read, rfl⟩ := Option.map_eq_some_iff.mp skipped
  exact ⟨value, succeeded_iff.mp read⟩

/-- What is skipped is not empty. -/
theorem skip_shorter (fuel : Nat) :
    (∀ text rest, skipValueIn fuel text = some rest → rest.length < text.length) ∧
      ∀ text rest, skipMembersIn fuel text = some rest → rest.length < text.length := by
  induction fuel with
  | zero =>
    exact ⟨fun _ _ skipped => by simp [skipValueIn] at skipped,
      fun _ _ skipped => by simp [skipMembersIn] at skipped⟩
  | succ fuel ih =>
    constructor
    · intro text rest skipped
      cases text with
      | nil => simp [skipValueIn] at skipped
      | cons c text =>
        rw [skipValueIn] at skipped
        split at skipped
        · exact Nat.lt_succ_of_lt (ih.2 _ _ skipped)
        · split at skipped
          · obtain ⟨value, read⟩ := succeeded_snd skipped
            exact readQuoted_shorter read
          · split at skipped
            · obtain ⟨value, read⟩ := succeeded_snd skipped
              exact readLiteral_shorter read
            · dsimp only at skipped
              split at skipped
              · cases skipped
              · next filled =>
                cases skipped
                exact readAtom_shorter (by simpa using filled)
    · intro text rest skipped
      have spaces := skipSpaces_le text
      rw [skipMembersIn] at skipped
      split at skipped
      · next consumed =>
        cases skipped
        exact Nat.lt_of_lt_of_le (tryConsume_shorter consumed) spaces
      · split at skipped
        · cases skipped
        · obtain ⟨middle, value, members⟩ := Option.bind_eq_some_iff.mp skipped
          have first := ih.1 _ _ value
          have others := ih.2 _ _ members
          omega

/-- Fuel beyond the length of the text does not matter. -/
theorem skip_stable (fuel : Nat) :
    (∀ text : Bytes, 2 * text.length < fuel → skipValueIn (fuel + 1) text = skipValueIn fuel text) ∧
      ∀ text : Bytes, 2 * text.length + 1 < fuel →
      skipMembersIn (fuel + 1) text = skipMembersIn fuel text := by
  induction fuel with
  | zero => exact ⟨fun _ few => absurd few (Nat.not_lt_zero _), fun _ few =>
      absurd few (Nat.not_lt_zero _)⟩
  | succ fuel ih =>
    constructor
    · intro text enough
      cases text with
      | nil => simp [skipValueIn]
      | cons c text =>
        simp only [List.length_cons] at enough
        rw [skipValueIn, skipValueIn, ih.2 text (by omega)]
    · intro text enough
      have spaces := skipSpaces_le text
      have value := ih.1 (skipSpaces text) (by omega)
      have members : (skipValueIn fuel (skipSpaces text)).bind (skipMembersIn (fuel + 1)) =
          (skipValueIn fuel (skipSpaces text)).bind (skipMembersIn fuel) := by
        refine Option.bind_congr fun middle skipped => ih.2 middle ?_
        have shorter := (skip_shorter fuel).1 _ _ skipped
        omega
      rw [skipMembersIn, skipMembersIn, value, members]

theorem skipValueIn_eq {fuel : Nat} {text : Bytes} (enough : 2 * text.length < fuel) :
    skipValueIn fuel text = skipValue text := by
  induction enough with
  | refl => rfl
  | step enough ih => rw [(skip_stable _).1 text enough, ih]

theorem skipMembersIn_eq {fuel : Nat} {text : Bytes} (enough : 2 * text.length + 1 < fuel) :
    skipMembersIn fuel text = skipMembers text := by
  induction enough with
  | refl => rfl
  | step enough ih => rw [(skip_stable _).2 text enough, ih]

theorem skipValue_open (text : Bytes) : skipValue (byte '(' :: text) = skipMembers text := by
  rw [skipValue, skipValueIn, if_pos (by decide)]
  refine skipMembersIn_eq ?_
  rw [List.length_cons]
  omega

theorem skipMembers_eq (text : Bytes) :
    skipMembers text = match tryConsume (byte ')') (skipSpaces text) with
    | some rest => some rest
    | none => if (skipSpaces text).isEmpty then none
        else (skipValue (skipSpaces text)).bind skipMembers := by
  have spaces := skipSpaces_le text
  have value : skipValueIn (2 * text.length + 1) (skipSpaces text) = skipValue (skipSpaces text) :=
    skipValueIn_eq (by omega)
  have members : (skipValue (skipSpaces text)).bind (skipMembersIn (2 * text.length + 1)) =
      (skipValue (skipSpaces text)).bind skipMembers := by
    refine Option.bind_congr fun middle skipped => skipMembersIn_eq ?_
    have shorter := (skip_shorter _).1 _ _ skipped
    omega
  rw [← members, ← value]
  exact skipMembersIn.eq_2 ..

end Fetch
end Bkmail
