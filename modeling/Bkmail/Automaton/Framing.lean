import Mathlib.Data.List.Basic

namespace Automaton

variable {α β σ : Type}

/-- A cutter takes the first piece off a stream, or waits for more of the stream. What it takes
    does not depend on what stands behind the piece. -/
structure Cutter (α β : Type) where
  cut : List α → Option (β × List α)
  shrinks : ∀ {stream piece rest}, cut stream = some (piece, rest) → rest.length < stream.length
  stable : ∀ {stream piece rest} more, cut stream = some (piece, rest) →
    cut (stream ++ more) = some (piece, rest ++ more)

namespace Cutter

/-- The pieces of a stream, and the part of it that still waits. -/
def drain (cutter : Cutter α β) (stream : List α) : List β × List α :=
  match taken : cutter.cut stream with
  | none => ([], stream)
  | some (piece, rest) =>
    have := cutter.shrinks taken
    (piece :: (cutter.drain rest).1, (cutter.drain rest).2)
termination_by stream.length

variable {cutter : Cutter α β}

theorem drain_of_waiting {stream : List α} (waits : cutter.cut stream = none) :
    cutter.drain stream = ([], stream) := by
  rw [drain]
  split
  · rfl
  · next taken => simp [waits] at taken

theorem drain_of_cut {stream rest : List α} {piece : β}
    (taken : cutter.cut stream = some (piece, rest)) :
    cutter.drain stream = (piece :: (cutter.drain rest).1, (cutter.drain rest).2) := by
  rw [drain]
  split
  · next waits => simp [waits] at taken
  · next same =>
    obtain ⟨rfl, rfl⟩ := Prod.mk.inj (Option.some.inj (taken.symm.trans same))
    rfl

theorem drain_waits (cutter : Cutter α β) (stream : List α) :
    cutter.cut (cutter.drain stream).2 = none := by
  induction stream using drain.induct cutter with
  | case1 stream waits => rwa [drain_of_waiting waits]
  | case2 stream piece rest taken _ ih => rwa [drain_of_cut taken]

theorem drain_append (cutter : Cutter α β) (stream more : List α) :
    cutter.drain (stream ++ more) =
      ((cutter.drain stream).1 ++ (cutter.drain ((cutter.drain stream).2 ++ more)).1,
        (cutter.drain ((cutter.drain stream).2 ++ more)).2) := by
  induction stream using drain.induct cutter with
  | case1 stream waits => simp [drain_of_waiting waits]
  | case2 stream piece rest taken _ ih =>
      simp [drain_of_cut taken, drain_of_cut (cutter.stable more taken), ih]

end Cutter

def outputs (read : σ → List α → List β × σ) : σ → List (List α) → List β
  | _, [] => []
  | state, chunk :: chunks => (read state chunk).1 ++ outputs read (read state chunk).2 chunks

theorem outputs_eq_drain (cutter : Cutter α β) (read : σ → List α → List β × σ)
    (holds : σ → List α → Prop)
    (step : ∀ state left chunk, holds state left →
      (read state chunk).1 = (cutter.drain (left ++ chunk)).1 ∧
        holds (read state chunk).2 (cutter.drain (left ++ chunk)).2)
    {state : σ} {left : List α} (start : holds state left) (waits : cutter.cut left = none)
    (chunks : List (List α)) :
    outputs read state chunks = (cutter.drain (left ++ chunks.flatten)).1 := by
  induction chunks generalizing state left with
  | nil => simp [outputs, Cutter.drain_of_waiting waits]
  | cons chunk chunks ih =>
    obtain ⟨out, next⟩ := step state left chunk start
    rw [outputs, out, ih next (cutter.drain_waits _), List.flatten_cons, ← List.append_assoc,
      cutter.drain_append (left ++ chunk)]

end Automaton
