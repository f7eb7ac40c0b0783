import Bkmail.Response.RoundTrip
import Mathlib.Data.List.Nodup

namespace Bkmail

theorem upper_upper : ∀ c : UInt8, asciiToUpper (asciiToUpper c) = asciiToUpper c :=
  forall_byte (by decide +kernel)

/-- Interned names: in upper case, none of them empty, and none twice. -/
@[ext]
structure CapabilitySet where
  names : List Bytes := []
  upper : ∀ name ∈ names, name.map asciiToUpper = name
  filled : [] ∉ names
  nodup : names.Nodup

namespace CapabilitySet

def empty : CapabilitySet := ⟨[], nofun, nofun, .nil⟩

instance : Inhabited CapabilitySet := ⟨empty⟩

instance : DecidableEq CapabilitySet :=
  fun a b => decidable_of_iff (a.names = b.names) CapabilitySet.ext_iff.symm

def contains (set : CapabilitySet) (name : Bytes) : Bool := set.names.any (asciiIequals · name)

theorem contains_iff (set : CapabilitySet) (name : Bytes) :
    set.contains name = true ↔ name.map asciiToUpper ∈ set.names := by
  rw [contains, List.any_eq_true]
  constructor
  · rintro ⟨stored, member, same⟩
    rwa [← beq_iff_eq.mp same, set.upper stored member]
  · intro member
    refine ⟨_, member, ?_⟩
    rw [asciiIequals, set.upper _ member, beq_self_eq_true]

theorem interned_upper (set : CapabilitySet) (cap : Bytes) :
    ∀ name ∈ set.names ++ [cap.map asciiToUpper], name.map asciiToUpper = name := by
  intro name member
  rcases List.mem_append.mp member with known | fresh
  · exact set.upper name known
  · rw [List.mem_singleton.mp fresh, List.map_map]
    exact List.map_congr_left fun c _ => upper_upper c

theorem interned_filled (set : CapabilitySet) {cap : Bytes} (nonempty : cap ≠ []) :
    [] ∉ set.names ++ [cap.map asciiToUpper] := by
  intro member
  rcases List.mem_append.mp member with known | fresh
  · exact set.filled known
  · exact nonempty (List.map_eq_nil_iff.mp (List.mem_singleton.mp fresh).symm)

theorem interned_nodup (set : CapabilitySet) {cap : Bytes} (unknown : set.contains cap = false) :
    (set.names ++ [cap.map asciiToUpper]).Nodup := by
  have fresh : cap.map asciiToUpper ∉ set.names := by
    intro member
    cases unknown.symm.trans ((set.contains_iff cap).mpr member)
  exact List.nodup_append.mpr ⟨set.nodup, List.nodup_singleton _, fun name member other same => by
    rintro rfl
    exact fresh (List.mem_singleton.mp same ▸ member)⟩

/-- The name goes to the end in upper case; an empty one and one that is there are ignored. -/
def insert (set : CapabilitySet) (cap : Bytes) : CapabilitySet :=
  if nonempty : cap = [] then set
  else if unknown : set.contains cap = true then set
  else ⟨_, set.interned_upper cap, set.interned_filled nonempty,
    set.interned_nodup (Bool.not_eq_true _ ▸ unknown)⟩

theorem mem_insert (set : CapabilitySet) (cap name : Bytes) :
    name ∈ (set.insert cap).names ↔ name ∈ set.names ∨ cap ≠ [] ∧ name = cap.map asciiToUpper := by
  unfold insert
  split
  · next void => simp [void]
  · next nonempty =>
    split
    · next known =>
      have there := (set.contains_iff cap).mp known
      constructor
      · exact .inl
      · rintro (member | ⟨-, rfl⟩)
        · exact member
        · exact there
    · simp [nonempty]

theorem mem_foldl_insert (caps : List Bytes) (set : CapabilitySet) (name : Bytes) :
    name ∈ (caps.foldl insert set).names ↔
    name ∈ set.names ∨ ∃ cap ∈ caps, cap ≠ [] ∧ name = cap.map asciiToUpper := by
  induction caps generalizing set with
  | nil => simp
  | cons cap caps ih =>
    rw [List.foldl_cons, ih, mem_insert]
    simp only [List.mem_cons, exists_eq_or_imp, or_assoc]

end CapabilitySet

namespace CapabilityCommand

def addCodeAtoms (set : CapabilitySet) : Option ResponseCode → CapabilitySet
  | some (.capability capabilities) => capabilities.foldl .insert set
  | _ => set

def addAtoms (set : CapabilitySet) (atoms : Bytes) : CapabilitySet :=
  ((atoms.splitOn (byte ' ')).filter (· ≠ [])).foldl .insert set

def onUntagged (set : CapabilitySet) (r : UntaggedResponse) : CapabilitySet :=
  match r.kind with
  | .capability => addAtoms set r.payload
  | .ok => addCodeAtoms set r.code
  | _ => set

/-- The set is moved out on OK only. -/
def onTagged (set : CapabilitySet) (r : TaggedResponse) : Option ErrorCode × CapabilitySet :=
  match mapStatusToEc r.status with
  | some ec => (some ec, .empty)
  | none => (none, addCodeAtoms set r.code)

def result (responses : List UntaggedResponse) (r : TaggedResponse) :
    Option ErrorCode × CapabilitySet :=
  onTagged (responses.foldl onUntagged .empty) r

end CapabilityCommand

/-! What a server advertises, as it writes it. -/

def StatusText.advertised : StatusText → List Bytes
  | coded (.capability _ capabilities) _ _ => capabilities.map AtomText.bytes
  | _ => []

theorem StatusText.advertised_nonempty (text : StatusText) : [] ∉ text.advertised := by
  cases text with
  | plain => exact List.not_mem_nil
  | coded code =>
    cases code with
    | capability _ capabilities =>
      intro member
      obtain ⟨cap, -, void⟩ := List.mem_map.mp member
      exact cap.nonempty void
    | _ => exact List.not_mem_nil

/-- A `* CAPABILITY` line, an untagged OK, or an untagged response of another kind. -/
inductive Advertisement where
  | data (word : Keyword "CAPABILITY") (capabilities : List AtomText)
  | ok (word : Keyword "OK") (text : StatusText)
  | other (response : ShallowResponse) (r : UntaggedResponse) (untagged : response.value = .untagged r)
    (silent : r.kind ≠ .capability ∧ r.kind ≠ .ok)

namespace Advertisement

def words : Advertisement → List Bytes
  | data _ capabilities => capabilities.map AtomText.bytes
  | ok _ text => text.advertised
  | other .. => []

theorem words_nonempty (line : Advertisement) : [] ∉ line.words := by
  cases line with
  | data _ capabilities =>
    intro member
    obtain ⟨cap, -, void⟩ := List.mem_map.mp member
    exact cap.nonempty void
  | ok _ text => exact text.advertised_nonempty
  | other => exact List.not_mem_nil

def response : Advertisement → ShallowResponse
  | data word [] => .data .capability word none
  | data word capabilities =>
    .data .capability word (some ([byte ' '].intercalate (capabilities.map AtomText.bytes)))
  | ok word text => .status (.untagged .ok word) text
  | other response .. => response

def render (line : Advertisement) : Bytes := line.response.render

end Advertisement

def untagged? (text : Bytes) : Option UntaggedResponse :=
  match Parser.parse text with
  | some (.untagged r) => some r
  | _ => none

namespace CapabilityCommand

theorem words_split {capabilities : List AtomText} (nonempty : capabilities ≠ []) :
    (([byte ' '].intercalate (capabilities.map AtomText.bytes)).splitOn (byte ' ')).filter (· ≠ []) =
      capabilities.map AtomText.bytes := by
  have unspaced : ∀ word ∈ capabilities.map AtomText.bytes, byte ' ' ∉ word := by
    intro word member space
    obtain ⟨cap, -, rfl⟩ := List.mem_map.mp member
    exact absurd (cap.atoms _ space) (by decide)
  rw [List.splitOn_intercalate _ unspaced (by simpa using nonempty), List.filter_eq_self]
  intro word member
  obtain ⟨cap, -, rfl⟩ := List.mem_map.mp member
  simpa using cap.nonempty

theorem addCodeAtoms_advertised (set : CapabilitySet) (text : StatusText) :
    addCodeAtoms set text.code = text.advertised.foldl .insert set := by
  cases text with
  | plain => rfl
  | coded code => cases code <;> rfl

/-- A line of the server, parsed and absorbed, adds the words that it advertises. -/
theorem onUntagged_advertised (line : Advertisement) : ∃ r, untagged? line.render = some r ∧
    ∀ set, onUntagged set r = line.words.foldl .insert set := by
  rw [Advertisement.render, untagged?, parse_render]
  cases line with
  | data word capabilities =>
    cases capabilities with
    | nil => exact ⟨_, rfl, fun _ => rfl⟩
    | cons cap capabilities =>
      refine ⟨_, rfl, fun set => ?_⟩
      show addAtoms set _ = _
      rw [addAtoms, Option.getD_some, words_split (List.cons_ne_nil cap capabilities)]
      rfl
  | ok word text => exact ⟨_, rfl, fun set => addCodeAtoms_advertised set text⟩
  | other response r untagged silent =>
    obtain ⟨data, status⟩ := silent
    rw [Advertisement.response, untagged]
    refine ⟨r, rfl, fun set => ?_⟩
    unfold onUntagged
    split
    · next capability => exact absurd capability data
    · next ok => exact absurd ok status
    · rfl

theorem foldl_onUntagged (lines : List Advertisement) (set : CapabilitySet) :
    ((lines.map (·.render)).filterMap untagged?).foldl onUntagged set =
    (lines.flatMap (·.words)).foldl .insert set := by
  induction lines generalizing set with
  | nil => rfl
  | cons line lines ih =>
    obtain ⟨r, parsed, absorbs⟩ := onUntagged_advertised line
    simp only [List.map_cons, List.filterMap_cons, parsed, List.foldl_cons, List.flatMap_cons,
      List.foldl_append, ih, absorbs]

/-- A probe that is answered OK leaves the names that the server advertised, in its lines and in the
    code of the reply, in whatever order, as often as it likes and in any letter case. -/
theorem probe_exact (lines : List Advertisement) (tag : AtomText)
    (noPlus : tag.bytes.head? ≠ some (byte '+'))
    (word : Keyword ResponseStatus.ok.name) (text : StatusText) :
    ∃ r set, Parser.parse (ShallowResponse.status (.tagged tag noPlus .ok (.inl rfl) word)
    text).render = some (.tagged r) ∧ result ((lines.map (·.render)).filterMap untagged?) r =
    (none, set) ∧ ∀ name, set.contains name = true ↔
        ∃ word ∈ lines.flatMap (·.words) ++ text.advertised, asciiIequals word name = true := by
  refine ⟨_, _, parse_render _, rfl, fun name => ?_⟩
  have gathered :
    addCodeAtoms (((lines.map (·.render)).filterMap untagged?).foldl onUntagged .empty) text.code =
      (lines.flatMap (·.words) ++ text.advertised).foldl .insert .empty := by
    rw [foldl_onUntagged, addCodeAtoms_advertised, List.foldl_append]
  show (addCodeAtoms _ text.code).contains name = true ↔ _
  rw [gathered, CapabilitySet.contains_iff, CapabilitySet.mem_foldl_insert]
  constructor
  · rintro (none | ⟨word, member, nonempty, same⟩)
    · cases none
    · exact ⟨word, member, beq_iff_eq.mpr same.symm⟩
  · rintro ⟨word, member, same⟩
    refine .inr ⟨word, member, ?_, (beq_iff_eq.mp same).symm⟩
    rintro rfl
    rcases List.mem_append.mp member with inside | inside
    · obtain ⟨line, -, inside⟩ := List.mem_flatMap.mp inside
      exact line.words_nonempty inside
    · exact text.advertised_nonempty inside

/-- `* CAPABILITY IMAP4rev1 idle`, `* OK [CAPABILITY MOVE] hello`, `* 5 EXISTS` and a plain OK. -/
theorem probe_exact_idle : ∃ r set, Parser.parse (ascii "a0001 OK done") = some (.tagged r) ∧
    result ([ascii "* CAPABILITY IMAP4rev1 idle", ascii "* OK [CAPABILITY MOVE] hello",
    ascii "* 5 EXISTS"].filterMap
      untagged?) r = (none, set) ∧ set.contains (ascii "Idle") = true := by
  obtain ⟨r, set, parsed, same, exact⟩ := probe_exact
    [.data (.spelled "CAPABILITY" rfl)
        [⟨ascii "IMAP4rev1", by decide, List.all_eq_true.mp rfl⟩,
          ⟨ascii "idle", by decide, List.all_eq_true.mp rfl⟩],
      .ok (.spelled "OK" rfl) (.coded (.capability (.spelled "CAPABILITY" rfl)
        [⟨ascii "MOVE", by decide, List.all_eq_true.mp rfl⟩]) (by decide) (ascii "hello")),
      .other (.numbered 5 (by decide) .exists (.spelled "EXISTS" rfl)) _ rfl (by decide)]
    ⟨ascii "a0001", by decide, List.all_eq_true.mp rfl⟩ (by decide) (.spelled "OK" rfl)
      (.plain (ascii "done") (by decide))
  refine ⟨r, set, parsed, same, (exact _).mpr ⟨ascii "idle", ?_, rfl⟩⟩
  exact List.mem_append_left _ (List.mem_flatMap.mpr ⟨_, List.mem_cons_self,
    List.mem_cons_of_mem _ List.mem_cons_self⟩)

end CapabilityCommand
end Bkmail
