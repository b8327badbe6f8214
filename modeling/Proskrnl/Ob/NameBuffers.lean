import Proskrnl.Library.CallStack
import Proskrnl.Ob.Resolve
import Proskrnl.Abi.Status
import Proskrnl.Ke.KernelStack

/-!
# The buffers that names are put into

The substitutions of `ObpLookupName`, and `ObpFullNameWrite` with what `NtQueryObject` makes of it. A
path that is rebuilt behind a link overruns its allocation by one byte when the name of the caller has
an odd length (`inBounds_iff`). The length of a full name is counted in 16 bits, by a walk that calls
itself for every directory up to the root and so has to fit the kernel stack (`nameKept_iff`).
-/

namespace Proskrnl.Ob
open List
open Ps (Body HandleTable HandleEntry AccessMask)
open Paths (meet components)
open CallStack (nest)

def Substitution.InBounds (x : Substitution) : Prop := ∀ w ∈ x.writes, w.1 + w.2 ≤ x.allocated

section
variable (q : LookupRequest) (s : ObState)

/-- The first thing to substitute leaves at least a unit behind, of a name with an odd length. -/
def Walk.Overruns (w : Walk) : Prop :=
  w.remaining.odd ∧ ∃ link r, w.Substitutes q s link (some r) ∧ r.units ≠ []

/-- The name has an odd length, and the first link on its way has something behind it, that fits a
name together with the target and that there is memory for. -/
def LookupRequest.Overruns (caller : Caller) : Prop :=
  q.name.odd ∧ ∃ start link rest, q.StartsAt caller s start ∧
    meet (q.space s) q.followFinalLink start (q.stripped.units.splitOn backslash) =
      some (.link link (components backslash (some rest))) ∧
    rest ≠ [] ∧ (s.target link).length + 1 + rest.length ≤ obpMaxNameUnits ∧ q.pool 0

/-- The lookup ends, and its substitutions were inside of what they allocated. -/
def LookupInBounds (caller : Caller) : Prop :=
  ∃ enough s' r log, (∀ turns, enough ≤ turns →
    obpLookupName q turns caller s = .ok (some (s', r, log))) ∧ ∀ x ∈ log, x.InBounds

end

section
variable {q : LookupRequest} {s : ObState} {caller : Caller} {w : Walk}

theorem rebuild_inBounds_iff (target : WStr) (rest : Option CountedString) :
    (rebuild target rest).2.InBounds ↔ ∀ r ∈ rest, r.odd → r.units = [] := by
  cases rest with
  | none =>
    refine iff_of_true ?_ fun r hr => by cases hr
    intro w hw
    cases mem_singleton.mp hw
    exact (Nat.zero_add _).le
  | some r =>
    unfold rebuild Substitution.InBounds CountedString.bytes
    cases r with
    | mk units odd =>
    cases units with
    | nil => cases odd <;> simp [Nat.mul_succ]
    | cons unit units => cases odd <;> simp <;> omega

theorem Walk.Substitutes.inBounds_iff {link : Body} {rest : Option CountedString}
    (h : w.Substitutes q s link rest) :
    (rebuild (s.target link) rest).2.InBounds ↔ ¬ w.Overruns q s := by
  rw [rebuild_inBounds_iff]
  constructor
  · rintro hrest ⟨hodd, link', r, h', hunits⟩
    obtain ⟨rfl, rfl⟩ := h.unique h'.meets h'.odd
    exact hunits (hrest r rfl ((h.odd r rfl).trans hodd))
  · intro hnot r hr hodd
    by_contra hunits
    cases hr
    exact hnot ⟨(h.odd r rfl).symm.trans hodd, link, r, h, hunits⟩

theorem Walk.not_overruns (h : ∀ link rest, ¬ w.Substitutes q s link rest) : ¬ w.Overruns q s := by
  rintro ⟨-, link, r, hsub, -⟩
  exact h link (some r) hsub

theorem forall_mem_append_singleton {α : Type} {P : α → Prop} {xs : List α} {x : α} :
    (∀ y ∈ xs ++ [x], P y) ↔ (∀ y ∈ xs, P y) ∧ P x := by
  simp [or_imp, forall_and]

theorem lookupLoop_inBounds (hs : s.WellFormed caller) (hw : w.Good s) :
    ∃ enough r log, (∀ turns, enough ≤ turns →
        lookupLoop q turns w (s.bump w.current) = .ok (some (s.after r, r, log))) ∧
      ((∀ x ∈ log, x.InBounds) ↔ (∀ x ∈ w.log, x.InBounds) ∧ ¬ w.Overruns q s) := by
  apply lookupLoop_ends hs (P := fun w _ log =>
    (∀ x ∈ log, Substitution.InBounds x) ↔ (∀ x ∈ w.log, x.InBounds) ∧ ¬ w.Overruns q s) _ _ w hw
  · intro w r log hw h
    cases h with
    | refused status hnot => exact (and_iff_left (Walk.not_overruns hnot)).symm
    | found _ hmeets hend hsound =>
      refine (and_iff_left (Walk.not_overruns fun link rest hsub => ?_)).symm
      exact hend _ (hmeets.symm.trans hsub.meets)
    | broken link rest status h => rw [forall_mem_append_singleton, h.inBounds_iff]
  · intro w w' r log hw h ih
    refine ih.trans ?_
    cases h with
    | descended child rest htype hrest hmeets =>
      refine and_congr_right fun _ => not_congr (and_congr_right fun _ => ?_)
      refine exists_congr fun link => exists_congr fun r => and_congr_left fun _ => ?_
      exact ⟨fun h => ⟨hmeets.trans h.meets, h.odd, h.reparses, h.length, h.pool⟩,
        fun h => ⟨hmeets.symm.trans h.meets, h.odd, h.reparses, h.length, h.pool⟩⟩
    | substituted link rest units h hunits =>
      -- what is left of a rebuilt path is even
      rw [forall_mem_append_singleton, h.inBounds_iff]
      refine and_iff_left ?_
      rintro ⟨hodd, -⟩
      cases hodd

theorem LookupRequest.overruns_iff {start : Body} (hstart : q.StartsAt caller s start) :
    (q.walk start).Overruns q s ↔ q.Overruns s caller := by
  constructor
  · rintro ⟨hodd, link, r, h, hunits⟩
    refine ⟨q.odd_stripped.symm.trans hodd, start, link, r.units, hstart, h.meets, hunits, ?_, h.pool⟩
    have hlength := h.length
    unfold rebuild at hlength
    dsimp only at hlength
    rw [if_pos hunits, length_append, length_cons] at hlength
    omega
  · rintro ⟨hodd, start', link, rest, hstart', hmeets, hrest, hlength, hpool⟩
    cases hstart.unique hstart'
    refine ⟨q.odd_stripped.trans hodd, link, ⟨rest, q.stripped.odd⟩, ⟨hmeets, ?_, ?_, ?_, hpool⟩, hrest⟩
    · intro r hr
      cases hr
      rfl
    · exact Nat.zero_lt_succ _
    · unfold rebuild
      dsimp only
      rw [if_pos hrest, length_append, length_cons]
      omega

/-- A lookup stays inside of its allocations unless its name is one that overruns. -/
theorem lookupInBounds_iff (hs : s.WellFormed caller) :
    LookupInBounds q s caller ↔ ¬ q.Overruns s caller := by
  suffices h : ∃ enough r log, (∀ turns, enough ≤ turns →
      obpLookupName q turns caller s = .ok (some (s.after r, r, log))) ∧
      ((∀ x ∈ log, Substitution.InBounds x) ↔ ¬ q.Overruns s caller) by
    obtain ⟨enough, r, log, hlookup, hlog⟩ := h
    rw [← hlog]
    constructor
    · rintro ⟨enough', s', r', log', hlookup', hbounds⟩
      have heq := (hlookup (max enough enough') (le_max_left ..)).symm.trans
        (hlookup' (max enough enough') (le_max_right ..))
      cases heq
      exact hbounds
    · exact fun hbounds => ⟨enough, s.after r, r, log, hlookup, hbounds⟩
  apply obpLookupName_ends hs
    (P := fun _ log => (∀ x ∈ log, Substitution.InBounds x) ↔ ¬ q.Overruns s caller)
  · intro status hnot
    refine iff_of_true (fun x hx => by cases hx) ?_
    rintro ⟨-, start, link, rest, hstart, -⟩
    exact hnot start hstart
  · intro start hstart htype hempty
    refine iff_of_true (fun x hx => by cases hx) ?_
    rintro ⟨hodd, -⟩
    unfold CountedString.bytes at hempty
    rw [q.odd_stripped, hodd, if_pos rfl] at hempty
    omega
  · intro start hstart htype hne
    obtain ⟨enough, r, log, hloop, hlog⟩ := lookupLoop_inBounds (q := q) hs
      (LookupRequest.walk_good htype)
    refine ⟨enough, r, log, hloop, hlog.trans ?_⟩
    rw [LookupRequest.overruns_iff hstart]
    exact and_iff_right fun x hx => by cases hx

end

/-- The units that have been stored, each at its place in the buffer, and how many they are. -/
structure FullNameOut where
  written : UInt16
  stores : List (Nat × UInt16)

def FullNameOut.store (out : FullNameOut) (unit : UInt16) : FullNameOut :=
  ⟨out.written + 1, out.stores ++ [(out.written.toNat, unit)]⟩

/-- `ObpFullNameWrite`, for the names from an object up to the root, on a stack with room for `frames`
nested calls. -/
def obpFullNameWrite (frames : Nat) : List WStr → FullNameOut → Option FullNameOut
  | [], out => some out
  | name :: parents, out =>
    (if parents = [] then some out
      else nest frames fun frames => obpFullNameWrite frames parents out).map fun out =>
    if name = [] then out else name.foldl FullNameOut.store (out.store backslash)

def obpFullNameLength (frames : Nat) (names : List WStr) : Option UInt16 :=
  if names.head?.all (· = []) then some 0
  else (obpFullNameWrite frames names ⟨0, []⟩).map (·.written * 2)

def obpWriteFullName (frames : Nat) (names : List WStr) : Option (List (Nat × UInt16)) :=
  if names.head?.all (· = []) then some []
  else (obpFullNameWrite frames names ⟨0, []⟩).map (·.stores)

inductive ObState.Chain (s : ObState) : Body → List WStr → Prop
  | root {b : Body} {o : Object} (ho : s.objects b = some o) (hparent : o.parentDirectory = none) :
    Chain s b [o.name]
  | child {b parent : Body} {o : Object} {names : List WStr} (ho : s.objects b = some o)
      (hparent : o.parentDirectory = some parent) (h : Chain s parent names) :
    Chain s b (o.name :: names)

/-- `NtQueryObject` is asked for the name: the length of the buffer, and what a probe of it says. -/
structure NameQuery where
  length : Nat
  probe : Nat → NtStatus

/-- What is written: offsets in the buffer and lengths, of which the probe has seen `probed` bytes. -/
structure NameAnswer where
  status : NtStatus
  returnLength : Option Nat := none
  probed : Nat := 0
  writes : List (Nat × Nat) := []

/-- `needed`: an `OBJECT_NAME_INFORMATION`, and a name with a terminator. -/
def neededBytes (nameBytes : Nat) : Nat := 16 + if nameBytes ≠ 0 then nameBytes + 2 else 0

/-- The arm `ObjectNameInformation` of `NtQueryObject`, for a type that has its names in the
namespace; `none` where a walk runs off the stack. -/
def queryObjectName (frames : Nat) (names : List WStr) (q : NameQuery) : Option NameAnswer :=
  (obpFullNameLength frames names).bind fun reported =>
  let nameBytes := reported.toNat
  let needed := neededBytes nameBytes
  if q.length < 16 ∨ nameBytes ≠ 0 ∧ q.length < needed then
    some { status := statusInfoLengthMismatch, returnLength := some needed }
  else if 0xfffc < nameBytes then some { status := statusNameTooLong }
  else if ¬ ntSuccess (q.probe needed) then some { status := q.probe needed }
  else
    (if nameBytes ≠ 0 then obpWriteFullName frames names else some []).map fun name => {
      status := statusSuccess
      returnLength := some needed
      probed := needed
      writes :=
        (if nameBytes ≠ 0 then
          name.map (fun store => (16 + 2 * store.1, 2)) ++ [(16 + 2 * (nameBytes / 2), 2)]
        else []) ++ [(0, 16)] }

def fullPath : List WStr → WStr
  | [] => []
  | name :: parents => fullPath parents ++ if name = [] then [] else backslash :: name

def fullName (names : List WStr) : WStr := if names.head?.all (· = []) then [] else fullPath names

/-- The walks end, and what is reported is what is written; a query writes inside of what it has probed,
and refuses a name that a counted string has no room for. -/
structure NameKept (frames : Nat) (names : List WStr) : Prop where
  length : ∃ reported written, obpFullNameLength frames names = some reported ∧
    obpWriteFullName frames names = some written ∧ reported.toNat = 2 * written.length
  answers : ∀ q, ∃ answer, queryObjectName frames names q = some answer ∧
    (∀ w ∈ answer.writes, w.1 + w.2 ≤ answer.probed) ∧
    (0xfffc < 2 * (fullName names).length → ¬ ntSuccess answer.status)

section
variable {frames : Nat} {names : List WStr} {out : FullNameOut}

/-- The walk fits the stack, or the object has no name to walk for. -/
def WalkFits (frames : Nat) (names : List WStr) : Prop :=
  names.head?.all (· = []) ∨ names.length ≤ frames + 1

theorem obpFullNameWrite_eq (h : names.length ≤ frames + 1) :
    obpFullNameWrite frames names out = some ((fullPath names).foldl FullNameOut.store out) := by
  induction names generalizing frames with
  | nil => rfl
  | cons name parents ih =>
    have hparents : (if parents = [] then some out
        else nest frames fun frames => obpFullNameWrite frames parents out) =
        some ((fullPath parents).foldl FullNameOut.store out) := by
      split
      case isTrue hroot => rw [hroot]; rfl
      case isFalse hroot =>
        cases frames with
        | zero =>
          have hlength := length_pos_iff.mpr hroot
          rw [length_cons] at h
          omega
        | succ room =>
          exact ih (by rw [length_cons] at h; omega)
    rw [obpFullNameWrite, hparents, fullPath, foldl_append, Option.map_some]
    split <;> rfl

theorem obpFullNameWrite_none (h : frames + 1 < names.length) :
    obpFullNameWrite frames names out = none := by
  induction names generalizing frames with
  | nil => exact absurd h (Nat.not_lt_zero _)
  | cons name parents ih =>
    rw [length_cons] at h
    have hparents : (if parents = [] then some out
        else nest frames fun frames => obpFullNameWrite frames parents out) = none := by
      rw [if_neg (ne_nil_of_length_pos (by omega))]
      cases frames with
      | zero => rfl
      | succ room => exact ih (by omega)
    rw [obpFullNameWrite, hparents, Option.map_none]

theorem written_store (units : WStr) :
    (units.foldl FullNameOut.store out).written = out.written + .ofNat units.length := by
  induction units generalizing out with
  | nil => simp
  | cons unit units ih =>
    rw [foldl_cons, ih, FullNameOut.store, length_cons, Nat.add_comm, UInt16.ofNat_add,
      UInt16.add_assoc]
    rfl

theorem length_store (units : WStr) :
    (units.foldl FullNameOut.store out).stores.length = out.stores.length + units.length := by
  induction units generalizing out with
  | nil => rfl
  | cons unit units ih =>
    rw [foldl_cons, ih, FullNameOut.store, length_append, length_cons, length_cons]
    simp only [length_nil]
    omega

theorem stores_store (out : FullNameOut) (units : WStr) (h : out.written.toNat + units.length < 0x10000) :
    ∀ x ∈ (units.foldl FullNameOut.store out).stores,
      x ∈ out.stores ∨ x.1 < out.written.toNat + units.length := by
  induction units generalizing out with
  | nil => exact fun x hx => .inl hx
  | cons unit units ih =>
    rw [length_cons] at h
    have hwritten : (out.store unit).written.toNat = out.written.toNat + 1 := by
      show (out.written + 1).toNat = _
      rw [UInt16.toNat_add]
      exact Nat.mod_eq_of_lt (by show _ + 1 < 65536; omega)
    intro x hx
    rw [length_cons]
    obtain hx | hx := ih _ (by omega) x hx
    · obtain hx | hx := mem_append.mp hx
      · exact .inl hx
      · cases mem_singleton.mp hx
        exact .inr (by show out.written.toNat < _; omega)
    · exact .inr (by omega)

/-- What is written where the walk fits the stack. -/
def storesOf (names : List WStr) : List (Nat × UInt16) :=
  ((fullName names).foldl FullNameOut.store ⟨0, []⟩).stores

theorem obpWriteFullName_eq (h : WalkFits frames names) :
    obpWriteFullName frames names = some (storesOf names) := by
  unfold obpWriteFullName storesOf fullName
  split
  · rfl
  · rename_i hnamed
    rw [obpFullNameWrite_eq (h.resolve_left hnamed), Option.map_some]

theorem length_storesOf (names : List WStr) : (storesOf names).length = (fullName names).length := by
  rw [storesOf, length_store]
  exact Nat.zero_add _

theorem obpFullNameLength_eq (h : WalkFits frames names) :
    ∃ reported, obpFullNameLength frames names = some reported ∧
      reported.toNat = 2 * (fullName names).length % 0x10000 := by
  unfold obpFullNameLength fullName
  split
  · exact ⟨0, rfl, rfl⟩
  · rename_i hnamed
    rw [obpFullNameWrite_eq (h.resolve_left hnamed), Option.map_some]
    refine ⟨_, rfl, ?_⟩
    rw [written_store, UInt16.toNat_mul, UInt16.toNat_add]
    simp only [UInt16.toNat_ofNat', UInt16.toNat_ofNat]
    omega

theorem obpFullNameLength_none (h : ¬ WalkFits frames names) :
    obpFullNameLength frames names = none := by
  obtain ⟨hnamed, hlength⟩ := not_or.mp h
  rw [obpFullNameLength, if_neg hnamed, obpFullNameWrite_none (Nat.lt_of_not_le hlength),
    Option.map_none]

theorem storesOf_lt (h : (fullName names).length < 0x10000) :
    ∀ x ∈ storesOf names, x.1 < (fullName names).length := by
  intro x hx
  obtain hx | hx := stores_store ⟨0, []⟩ _ (by show 0 + _ < _; omega) x hx
  · cases hx
  · rwa [← Nat.zero_add (fullName names).length]

/-- A query where the length that is reported is that of the name. -/
theorem queryObjectName_kept {reported : UInt16} (hfits : WalkFits frames names)
    (hreported : obpFullNameLength frames names = some reported)
    (hlength : reported.toNat = 2 * (fullName names).length) (q : NameQuery) :
    ∃ answer, queryObjectName frames names q = some answer ∧
      (∀ w ∈ answer.writes, w.1 + w.2 ≤ answer.probed) ∧
      (0xfffc < 2 * (fullName names).length → ¬ ntSuccess answer.status) := by
  have hlt : (fullName names).length < 0x10000 := by
    have hle := reported.toNat_lt
    omega
  have hstores := storesOf_lt hlt
  have hname : (if reported.toNat ≠ 0 then obpWriteFullName frames names else some []) =
      some (if reported.toNat ≠ 0 then storesOf names else []) := by
    rw [obpWriteFullName_eq hfits]
    split <;> rfl
  unfold queryObjectName
  rw [hreported, Option.bind_some]
  dsimp only
  rw [hname, Option.map_some]
  split
  · refine ⟨_, rfl, fun w hw => ?_, fun _ => ?_⟩
    · cases hw
    · show ¬ ntSuccess statusInfoLengthMismatch
      decide
  split
  · refine ⟨_, rfl, fun w hw => ?_, fun _ => ?_⟩
    · cases hw
    · show ¬ ntSuccess statusNameTooLong
      decide
  rename_i hfit
  split
  · rename_i hprobe
    refine ⟨_, rfl, fun w hw => ?_, fun _ => hprobe⟩
    cases hw
  refine ⟨_, rfl, ?_, fun hlong => absurd (hlength ▸ hlong) hfit⟩
  intro w hw
  dsimp only at hw ⊢
  unfold neededBytes
  obtain hw | hw := mem_append.mp hw
  · split at hw
    · rename_i hne
      rw [if_pos hne]
      obtain hw | hw := mem_append.mp hw
      · obtain ⟨x, hx, rfl⟩ := List.mem_map.mp hw
        have hplace := hstores x hx
        dsimp only
        omega
      · cases mem_singleton.mp hw
        dsimp only
        omega
    · cases hw
  · cases mem_singleton.mp hw
    exact Nat.zero_add 16 ▸ Nat.le_add_right ..

theorem nameKept_iff :
    NameKept frames names ↔ (fullName names).length < 0x8000 ∧ WalkFits frames names := by
  constructor
  · rintro ⟨⟨reported, written, hreported, hwritten, heq⟩, -⟩
    have hfits : WalkFits frames names := by
      by_contra h
      rw [obpFullNameLength_none h] at hreported
      cases hreported
    obtain ⟨reported', hreported', hlength⟩ := obpFullNameLength_eq hfits
    cases hreported.symm.trans hreported'
    cases hwritten.symm.trans (obpWriteFullName_eq hfits)
    rw [length_storesOf] at heq
    exact ⟨by omega, hfits⟩
  · rintro ⟨hlt, hfits⟩
    obtain ⟨reported, hreported, hlength⟩ := obpFullNameLength_eq hfits
    rw [Nat.mod_eq_of_lt (by omega)] at hlength
    refine ⟨⟨reported, _, hreported, obpWriteFullName_eq hfits, ?_⟩,
      queryObjectName_kept hfits hreported hlength⟩
    rw [length_storesOf, hlength]

end

/-- Substitutions are in bounds but for names of an odd length that leave something behind a link; full
names are kept up to 32767 units, as deep as the stack has room for the walk. -/
theorem names_kept_iff {s : ObState} {caller : Caller} (hs : s.WellFormed caller) :
    (∀ q : LookupRequest, LookupInBounds q s caller ↔ ¬ q.Overruns s caller) ∧
    ∀ frames b names, s.Chain b names →
      (NameKept frames names ↔ (fullName names).length < 0x8000 ∧ WalkFits frames names) :=
  ⟨fun _ => lookupInBounds_iff hs, fun _ _ _ _ => nameKept_iff⟩

theorem sampleSpace_chain : sampleSpace.Chain (.other 2) [[0x44], []] := by
  have hroot : sampleSpace.Chain (.other 0) [[]] := by
    obtain ⟨o, ho⟩ : ∃ o, sampleSpace.objects (.other 0) = some o := ⟨_, rfl⟩
    have h := ObState.Chain.root ho
    cases ho
    exact h rfl
  obtain ⟨o, ho⟩ : ∃ o, sampleSpace.objects (.other 2) = some o := ⟨_, rfl⟩
  have h := fun hparent => ObState.Chain.child ho hparent hroot
  cases ho
  exact h rfl

theorem names_kept_sample : (LookupInBounds sampleLookup sampleSpace sampleCaller ↔
      ¬ sampleLookup.Overruns sampleSpace sampleCaller) ∧
    (NameKept 100 [[0x44], []] ↔
      (fullName [[0x44], []]).length < 0x8000 ∧ WalkFits 100 [[0x44], []]) :=
  ⟨(names_kept_iff sampleSpace_wellFormed).1 sampleLookup,
    (names_kept_iff sampleSpace_wellFormed).2 100 (.other 2) [[0x44], []] sampleSpace_chain⟩

/-- `\L\x`, with one byte more -/
def sampleOdd : LookupRequest where
  name := ⟨[backslash, 0x4C, backslash, 0x78], true⟩
  pool _ := true

theorem sampleOdd_overruns : sampleOdd.Overruns sampleSpace sampleCaller := by
  refine ⟨rfl, .other 0, .other 1, [0x78], ⟨_, _, rfl⟩, ?_, cons_ne_nil _ _, ?_, rfl⟩
  · rfl
  · decide

theorem not_all_head {name : WStr} (hne : name ≠ []) (parents : List WStr) :
    ¬ ((name :: parents).head?.all (· = []) = true) := by
  intro h
  exact hne (of_decide_eq_true h)

theorem not_walkFits_deep {frames depth : Nat} (h : frames < depth) :
    ¬ WalkFits frames (List.replicate depth [0x44] ++ [[]]) := by
  obtain ⟨parents, rfl⟩ := Nat.exists_eq_add_of_lt h
  rintro (h | h)
  · rw [replicate_succ, cons_append] at h
    exact not_all_head (cons_ne_nil _ _) _ h
  · rw [length_append, length_replicate, length_singleton] at h
    omega

/-- The path behind the link is copied with a byte that there was no memory for; a name of 32767 units
in a directory is said to be of 4 bytes; and no kernel stack has room for the walk from a directory
that lies 1026 directories deep. -/
theorem names_overrun : ¬ LookupInBounds sampleOdd sampleSpace sampleCaller ∧
    (∀ frames, ¬ NameKept frames [List.replicate 32767 0x61, [0x44], []]) ∧
    ¬ NameKept Ke.kernelStackFrames (List.replicate 1026 [0x44] ++ [[]]) ∧
    obpFullNameLength Ke.kernelStackFrames (List.replicate 1026 [0x44] ++ [[]]) = none := by
  have hdeep := not_walkFits_deep (show Ke.kernelStackFrames < 1026 by decide)
  refine ⟨?_, fun frames => ?_, fun h => hdeep (nameKept_iff.mp h).2, obpFullNameLength_none hdeep⟩
  · rw [lookupInBounds_iff sampleSpace_wellFormed]
    exact not_not.mpr sampleOdd_overruns
  · rw [nameKept_iff]
    rintro ⟨hlt, -⟩
    have hne : List.replicate 32767 (0x61 : UInt16) ≠ [] := by
      intro h
      have hlength := congrArg List.length h
      rw [length_replicate] at hlength
      cases hlength
    unfold fullName fullPath at hlt
    rw [if_neg (not_all_head hne _), if_neg hne, length_append, length_cons, length_replicate] at hlt
    omega

end Proskrnl.Ob
