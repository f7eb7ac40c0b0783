import Bkmail.Command.Basic

namespace Bkmail

/-- What a command that only sends segments comes down to: the segments, how many of them are
    flushed, and how many may be sent. -/
structure Progress where
  segments : List Bytes
  emitted : Nat
  unlocked : Nat

def Segmented.progress (c : Segmented) : Progress := ⟨c.segments, c.emitted, c.unlocked⟩

def Command.progress : Command → Option Progress
  | .line _ wire emitted => some ⟨[wire], if emitted then 1 else 0, 1⟩
  | .login c | .append c | .authenticate c => some c.progress
  | .idle _ => none

namespace Progress

def next (p : Progress) : Bytes :=
  if p.emitted < p.unlocked then (p.segments[p.emitted]?).getD [] else []

def awaits (p : Progress) : Bool := p.unlocked < p.segments.length

def flushed (p : Progress) : Progress :=
  { p with emitted := if p.emitted < p.segments.length then p.emitted + 1 else p.emitted }

def continued (p : Progress) : Progress := { p with unlocked := p.unlocked + 1 }

end Progress

namespace Segmented

theorem nextSegment_progress (c : Segmented) : c.nextSegment = c.progress.next := by
  unfold nextSegment Progress.next progress
  by_cases locked : c.emitted ≥ c.unlocked
  · simp [locked, Nat.not_lt_of_le locked]
  · by_cases past : c.emitted ≥ c.seg.length
    · simp [past]
    · simp [locked, past, Nat.lt_of_not_le locked]

theorem awaitsContinuation_progress (c : Segmented) : c.awaitsContinuation = c.progress.awaits := by
  simp [awaitsContinuation, Progress.awaits, progress]

theorem onSegmentFlushed_progress (c : Segmented) :
    c.onSegmentFlushed.progress = c.progress.flushed := by
  unfold onSegmentFlushed Progress.flushed progress
  split <;> simp_all [segments]

theorem onContinuation_progress (c : Segmented) (awaits : c.awaitsContinuation = true) :
    c.onContinuation.progress = c.progress.continued ∧
      (AuthenticateCommand.onContinuation c).progress = c.progress.continued := by
  simp only [awaitsContinuation, decide_eq_true_eq] at awaits
  constructor
  · simp [onContinuation, awaits, progress, Progress.continued, segments]
  · simp [AuthenticateCommand.onContinuation, awaits, progress, Progress.continued, segments]

end Segmented

namespace Command

variable {c : Command} {p : Progress}

theorem nextSegment_progress (shape : c.progress = some p) : c.nextSegment = p.next := by
  cases c with
  | line c wire emitted =>
    cases shape
    cases emitted <;> rfl
  | login c | append c | authenticate c =>
    cases shape
    exact c.nextSegment_progress
  | idle c => cases shape

theorem awaitsContinuation_progress (shape : c.progress = some p) :
    c.awaitsContinuation = p.awaits := by
  cases c with
  | line => cases shape; rfl
  | login c | append c | authenticate c =>
    cases shape
    exact c.awaitsContinuation_progress
  | idle c => cases shape

theorem onSegmentFlushed_progress (shape : c.progress = some p) :
    c.onSegmentFlushed.progress = some p.flushed := by
  cases c with
  | line c wire emitted =>
    cases shape
    cases emitted <;> rfl
  | login c | append c | authenticate c =>
    cases shape
    exact congrArg some c.onSegmentFlushed_progress
  | idle c => cases shape

theorem onContinuation_progress (shape : c.progress = some p) (awaits : c.awaitsContinuation = true) :
    c.onContinuation.progress = some p.continued := by
  cases c with
  | line => cases awaits
  | login c | append c =>
    cases shape
    exact congrArg some (c.onContinuation_progress awaits).1
  | authenticate c =>
    cases shape
    exact congrArg some (c.onContinuation_progress awaits).2
  | idle c => cases shape

end Command

/-! The segments of a rendered command are not empty, and together they are its wire text. -/

namespace Segmented

/-- The bounds cut the first `upto` bytes of the wire text into pieces that are not empty. -/
structure Cuts (wire : Bytes) (seg : List (Nat × Nat)) (upto : Nat) : Prop where
  bound : upto ≤ wire.length
  inside : ∀ b ∈ seg, b.1 < b.2 ∧ b.2 ≤ upto
  whole : (seg.map (slice wire)).flatten = wire.take upto

theorem slice_append {wire more : Bytes} {b : Nat × Nat} (order : b.1 < b.2)
    (inside : b.2 ≤ wire.length) :
    slice (wire ++ more) b = slice wire b := by
  have start : b.1 ≤ wire.length := by omega
  rw [slice, slice, List.drop_append_of_le_length start, List.take_append_of_le_length]
  simp only [List.length_drop]
  omega

theorem Cuts.nil (wire : Bytes) : Cuts wire [] 0 := ⟨Nat.zero_le _, by simp, by simp⟩

theorem Cuts.append {wire : Bytes} {seg : List (Nat × Nat)} {upto : Nat} (cuts : Cuts wire seg upto)
    (more : Bytes) :
    Cuts (wire ++ more) seg upto where
  bound := by
    have := cuts.bound
    simp only [List.length_append]
    omega
  inside := cuts.inside
  whole := by
    have same : ∀ b ∈ seg, slice (wire ++ more) b = slice wire b := fun b member =>
      slice_append (cuts.inside b member).1 (Nat.le_trans (cuts.inside b member).2 cuts.bound)
    rw [List.map_congr_left same, cuts.whole, List.take_append_of_le_length cuts.bound]

theorem Cuts.close {wire : Bytes} {seg : List (Nat × Nat)} {upto : Nat} (cuts : Cuts wire seg upto)
    (more : upto < wire.length) : Cuts wire (seg ++ [(upto, wire.length)]) wire.length where
  bound := Nat.le_refl _
  inside := by
    intro b member
    rcases List.mem_append.mp member with old | new
    · exact ⟨(cuts.inside b old).1, Nat.le_trans (cuts.inside b old).2 cuts.bound⟩
    · cases List.mem_singleton.mp new
      exact ⟨more, Nat.le_refl _⟩
  whole := by
    have rest : slice wire (upto, wire.length) = wire.drop upto := by
      rw [slice]
      exact List.take_of_length_le (by simp)
    simp [cuts.whole, rest]

theorem Cuts.first {wire : Bytes} (filled : wire ≠ []) : Cuts wire [(0, wire.length)] wire.length :=
  (Cuts.nil wire).close (List.length_pos_of_ne_nil filled)

theorem Cuts.extend {wire more : Bytes} {seg : List (Nat × Nat)} (cuts : Cuts wire seg wire.length)
    (filled : more ≠ []) :
    Cuts (wire ++ more) (seg ++ [(wire.length, (wire ++ more).length)]) (wire ++ more).length := by
  refine (cuts.append more).close ?_
  have positive := List.length_pos_of_ne_nil filled
  rw [List.length_append]
  omega

theorem Cuts.nonempty {wire : Bytes} {seg : List (Nat × Nat)} {upto : Nat} (cuts : Cuts wire seg upto) :
    ∀ segment ∈ seg.map (slice wire), segment ≠ [] := by
  intro segment member
  obtain ⟨b, bounds, rfl⟩ := List.mem_map.mp member
  have inside := cuts.inside b bounds
  have bound := cuts.bound
  refine List.ne_nil_of_length_pos ?_
  simp only [slice, List.length_take, List.length_drop]
  omega

end Segmented

open Segmented (Cuts)

namespace LoginCommand

/-- The segments closed so far are cut from the text so far, one for each wall. -/
structure Rendering.Sound (r : Rendering) : Prop where
  cuts : Cuts r.wire r.seg r.segBegin
  walls : r.seg.length = r.walls

theorem Rendering.Sound.extend {r : Rendering} (sound : r.Sound) (more : Bytes) :
    Rendering.Sound { r with wire := r.wire ++ more } :=
  ⟨sound.cuts.append more, sound.walls⟩

theorem Rendering.Sound.close {r : Rendering} (sound : r.Sound) (few : r.walls < 4)
    (more : r.segBegin < r.wire.length) :
    Cuts r.wire (closeSegment r).seg r.wire.length ∧ (closeSegment r).seg.length = r.walls + 1 := by
  have room : r.seg.length < 4 := sound.walls ▸ few
  simp only [closeSegment, room, if_true]
  exact ⟨sound.cuts.close more, by simp [sound.walls]⟩

theorem Rendering.Sound.bound {r : Rendering} (sound : r.Sound) {more : Bytes} (filled : more ≠ []) :
    r.segBegin < (r.wire ++ more).length := by
  have inside := sound.cuts.bound
  have positive := List.length_pos_of_ne_nil filled
  rw [List.length_append]
  omega

theorem appendArg_sound {r : Rendering} (sound : r.Sound) (few : r.walls < 4) (literalPlus : Bool)
    (v : Bytes) :
    (appendArg literalPlus v r).Sound ∧ (appendArg literalPlus v r).walls ≤ r.walls + 1 := by
  unfold appendArg
  split
  · exact ⟨sound.extend v, Nat.le_succ _⟩
  · split
    · exact ⟨sound.extend _, Nat.le_succ _⟩
    · obtain ⟨cuts, walls⟩ := (sound.extend _).close few (sound.bound (List.cons_ne_nil _ _))
      exact ⟨⟨cuts.append v, walls⟩, Nat.le_refl _⟩

theorem rendering_cuts (c : LoginCommand) (tag : Tag) :
    Cuts (c.rendering tag).wire (c.rendering tag).seg (c.rendering tag).wire.length ∧
      (c.rendering tag).seg.length = (c.rendering tag).walls + 1 := by
  have start : Rendering.Sound { wire := tag ++ ascii " LOGIN " } := ⟨.nil _, rfl⟩
  obtain ⟨user, one⟩ := appendArg_sound start (by simp) c.literalPlus c.userName
  have few : (appendArg c.literalPlus c.userName { wire := tag ++ ascii " LOGIN " }).walls < 4 :=
    Nat.lt_of_le_of_lt one (by simp)
  obtain ⟨password, two⟩ := appendArg_sound (user.extend [byte ' ']) few c.literalPlus c.password
  have ended := password.extend crlf
  obtain ⟨cuts, walls⟩ := ended.close (Nat.lt_of_le_of_lt two (by simp only at one ⊢; omega))
    (password.bound (by decide))
  exact ⟨cuts, walls⟩

end LoginCommand

/-- A command as `render` leaves it: nothing sent, some of it allowed to go, and no empty
    segment. -/
structure Progress.Initial (p : Progress) : Prop where
  emitted : p.emitted = 0
  unlocked : 0 < p.unlocked
  within : p.unlocked ≤ p.segments.length
  filled : ∀ segment ∈ p.segments, segment ≠ []

/-- The commands that `render` makes wait behind a wall: synchronizing literals, and AUTHENTICATE
    without an initial response. -/
def Request.gated : Request → Bool
  | .line _ | .idle => false
  | .login c => !c.literalPlus
  | .append c => !c.literalPlus
  | .authenticate c => !c.saslIr

theorem LoginCommand.render_initial (c : LoginCommand) (tag : Tag) :
    (c.render tag).progress.Initial := by
  obtain ⟨cuts, walls⟩ := c.rendering_cuts tag
  have several : 0 < (c.rendering tag).seg.length := by omega
  refine ⟨rfl, ?_, ?_, cuts.nonempty⟩ <;> simp only [render, Segmented.progress,
    Segmented.length_segments]
  · split <;> omega
  · split <;> omega

theorem AppendCommand.render_cuts (c : AppendCommand) (tag : Tag) :
    Cuts (c.render tag).wire (c.render tag).seg (c.render tag).wire.length := by
  have line : c.line tag ≠ [] := by simp [AppendCommand.line, ascii]
  have filled : c.message ++ crlf ≠ [] := by simp [crlf, ascii]
  have both := (Cuts.first line).extend filled
  simpa only [render, List.singleton_append, List.append_assoc] using both

theorem AppendCommand.render_initial (c : AppendCommand) (tag : Tag) :
    (c.render tag).progress.Initial := by
  refine ⟨rfl, ?_, ?_, (c.render_cuts tag).nonempty⟩ <;>
    simp only [render, Segmented.progress, Segmented.length_segments, List.length_cons, List.length_nil]
  · split <;> decide
  · split <;> decide

theorem AuthenticateCommand.render_cuts (c : AuthenticateCommand) (tag : Tag) :
    Cuts (c.render tag).wire (c.render tag).seg (c.render tag).wire.length := by
  simp only [render]
  split
  · exact .first (by simp [ascii])
  · refine (Cuts.first (by simp [ascii])).extend ?_
    split <;> simp [ascii, crlf]

theorem AuthenticateCommand.render_initial (c : AuthenticateCommand) (tag : Tag) :
    (c.render tag).progress.Initial := by
  refine ⟨?_, ?_, ?_, (c.render_cuts tag).nonempty⟩ <;>
    · simp only [render, Segmented.progress, Segmented.length_segments]
      split <;> simp

theorem Request.render_initial {request : Request} {tag : Tag} (stamped : tag ≠ []) {p : Progress}
    (shape : (request.render tag).progress = some p) : p.Initial := by
  cases request with
  | line c =>
    cases shape
    exact ⟨rfl, Nat.one_pos, Nat.le_refl _, by simp [stamped]⟩
  | login c =>
    cases shape
    exact c.render_initial tag
  | append c =>
    cases shape
    exact c.render_initial tag
  | authenticate c =>
    cases shape
    exact c.render_initial tag
  | idle => cases shape

theorem Request.render_gated {request : Request} {tag : Tag} (gated : request.gated = true)
    {p : Progress}
    (shape : (request.render tag).progress = some p) : p.unlocked = 1 := by
  cases request with
  | line c => cases gated
  | login c =>
    cases shape
    have walls := (c.rendering_cuts tag).2
    simp only [Request.gated, Bool.not_eq_true'] at gated
    simp only [LoginCommand.render, Segmented.progress, gated, Bool.or_false, decide_eq_true_eq]
    split <;> omega
  | append c =>
    cases shape
    simp only [Request.gated, Bool.not_eq_true'] at gated
    simp [AppendCommand.render, Segmented.progress, gated]
  | authenticate c =>
    cases shape
    simp only [AuthenticateCommand.render, Segmented.progress]
    split <;> rfl
  | idle => cases gated

end Bkmail
