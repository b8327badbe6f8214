import Proskrnl.Fat.FileData
import Proskrnl.Fat.RoundTrip
import Proskrnl.Fat.Walks

/-!
# What is visible on a volume

The tree of names under the root directory: where an entry stands, which file it is and what the file
holds, all read from the disk. The file is known by the first cluster of its directory and the slot of
its short entry, as `FatFileId` and `FatGetFcb` know it. `Beside` is a change of the volume that stays
on some clusters and on clusters that were free; what stands on other clusters is as visible as it was.
-/

namespace Proskrnl.Fat
open Bytes List

def visibleEntries (v : Volume) (dir : Nat) : List WalkEntry :=
  (entries (slotsOf v dir)).filter fun e => !e.isDot

/-- `(sfn[11] & FAT_ATTR_DIRECTORY) != 0` -/
def WalkEntry.isDirectory (e : WalkEntry) : Bool := e.sfn.byte 11 &&& fatAttrDirectory ≠ 0

def WalkEntry.first (v : Volume) (e : WalkEntry) : Nat := fcbFirstCluster v e.sfn

inductive Volume.DirectoryAt (v : Volume) : List WStr → Nat → Prop
  | root : v.DirectoryAt [] v.rootCluster
  | entry {path : List WStr} {dir : Nat} {e : WalkEntry} (h : v.DirectoryAt path dir)
      (he : e ∈ visibleEntries v dir) (hdirectory : e.isDirectory = true) :
      v.DirectoryAt (path ++ [e.name]) (e.first v)

inductive Content where
  | directory
  | file (bytes : List UInt8)

/-- A byte of the file that starts at a cluster; zero where its chain is too short. -/
def fileByte (v : Volume) (first p : Nat) : UInt8 :=
  let cluster := fatWalkChain v first (p / fatClusterBytes v)
  if cluster = 0 then 0 else clusterByte v cluster (p % fatClusterBytes v)

def contentOf (v : Volume) (e : WalkEntry) : Content :=
  if e.isDirectory then .directory
  else .file ((List.range (field e.sfn 28 4)).map (fileByte v (e.first v)))

def Volume.visible (v : Volume) : Set (List WStr × (Nat × Nat) × Content) :=
  { x | ∃ path dir e, v.DirectoryAt path dir ∧ e ∈ visibleEntries v dir ∧
    x = (path ++ [e.name], (dir, e.sfnSlot), contentOf v e) }

section
variable {v v' v'' : Volume} {dir slot : Nat} {path : List WStr} {e : WalkEntry}

section
variable (hgeometry : v'.toGeometry = v.toGeometry)
include hgeometry

theorem fcbFirstCluster_congr (sfn : Slot) :
    fcbFirstCluster v' sfn = fcbFirstCluster v sfn := by
  rw [fcbFirstCluster, fcbFirstCluster]
  simp only [isDataCluster_congr hgeometry]

theorem first_congr (e : WalkEntry) :
    e.first v' = e.first v := fcbFirstCluster_congr hgeometry e.sfn

/-- A volume whose directories have the same entries has the same directories. -/
theorem directoryAt_congr
    (hentries : ∀ path dir, v.DirectoryAt path dir → visibleEntries v' dir = visibleEntries v dir) :
    v'.DirectoryAt path dir ↔ v.DirectoryAt path dir := by
  have hroot : v'.rootCluster = v.rootCluster := by rw [hgeometry]
  constructor
  · intro h
    induction h with
    | root =>
      rw [hroot]
      exact .root
    | entry _ he hdirectory ih =>
      rw [hentries _ _ ih] at he
      rw [first_congr hgeometry]
      exact .entry ih he hdirectory
  · intro h
    induction h with
    | root =>
      rw [← hroot]
      exact .root
    | entry h he hdirectory ih =>
      rw [← hentries _ _ h] at he
      rw [← first_congr hgeometry]
      exact .entry ih he hdirectory

theorem visible_congr
    (hentries : ∀ path dir, v.DirectoryAt path dir → visibleEntries v' dir = visibleEntries v dir)
    (hcontent : ∀ path dir e, v.DirectoryAt path dir → e ∈ visibleEntries v dir →
      contentOf v' e = contentOf v e) : v'.visible = v.visible := by
  ext x
  constructor
  · rintro ⟨path, dir, e, hdir, he, rfl⟩
    have hold := (directoryAt_congr hgeometry hentries).mp hdir
    rw [hentries _ _ hold] at he
    exact ⟨path, dir, e, hold, he, by rw [hcontent _ _ _ hold he]⟩
  · rintro ⟨path, dir, e, hdir, he, rfl⟩
    refine ⟨path, dir, e, (directoryAt_congr hgeometry hentries).mpr hdir, ?_, ?_⟩
    · rw [hentries _ _ hdir]
      exact he
    · rw [hcontent _ _ _ hdir he]

end

variable {run : Option LfnRun}

theorem mem_entriesOf {l : List Slot} (h : e ∈ entriesOf l slot run) :
    slot ≤ e.sfnSlot ∧ l[e.sfnSlot - slot]? = some e.sfn ∧ e.sfn.isFree = false := by
  induction l generalizing slot run with
  | nil => cases h
  | cons s l ih =>
    have hpass : ∀ run', e ∈ entriesOf l (slot + 1) run' →
        slot ≤ e.sfnSlot ∧ (s :: l)[e.sfnSlot - slot]? = some e.sfn ∧ e.sfn.isFree = false := by
      intro run' he
      obtain ⟨hle, hget, hused⟩ := ih he
      refine ⟨by omega, ?_, hused⟩
      rw [show e.sfnSlot - slot = e.sfnSlot - (slot + 1) + 1 by omega, getElem?_cons_succ]
      exact hget
    rw [entriesOf] at h
    split at h
    · cases h
    · split at h
      · exact hpass _ h
      · split at h
        · exact hpass _ h
        · split at h
          · exact hpass _ h
          · obtain rfl | h := mem_cons.mp h
            · have hshape : (walkEntry s slot run).sfnSlot = slot ∧ (walkEntry s slot run).sfn = s := by
                rw [walkEntry]
                split <;> exact ⟨rfl, rfl⟩
              rw [hshape.1, hshape.2, Nat.sub_self]
              refine ⟨Nat.le_refl _, rfl, ?_⟩
              rw [Slot.isFree, Bool.or_eq_false_iff]
              exact ⟨decide_eq_false ‹_›, decide_eq_false ‹_›⟩
            · exact hpass _ h

theorem lfnStep_start {s : Slot} {r : LfnRun}
    (hrun : ∀ r, run = some r → r.start ≤ slot) (h : lfnStep s slot run = some r) :
    r.start ≤ slot + 1 := by
  rw [lfnStep] at h
  simp only at h
  split at h
  · cases h
  · obtain ⟨r', hr', rfl⟩ := Option.map_eq_some_iff.mp h
    split at hr'
    · cases hr'
      exact Nat.le_succ _
    · exact Nat.le_succ_of_le (hrun r' (Option.filter_eq_some_iff.mp hr').1)

theorem lfnStartSlot_le_of_mem {l : List Slot}
    (hrun : ∀ r, run = some r → r.start ≤ slot) (h : e ∈ entriesOf l slot run) :
    e.lfnStartSlot ≤ e.sfnSlot := by
  induction l generalizing slot run with
  | nil => cases h
  | cons s l ih =>
    rw [entriesOf] at h
    split at h
    · cases h
    · split at h
      · exact ih (fun _ hr => by cases hr) h
      · split at h
        · exact ih (fun r hr => lfnStep_start hrun hr) h
        · split at h
          · exact ih (fun _ hr => by cases hr) h
          · obtain rfl | h := mem_cons.mp h
            · rw [walkEntry]
              split
              case h_1 name start hname =>
                obtain ⟨r, hr, hlfn⟩ := Option.bind_eq_some_iff.mp hname
                split at hlfn
                · simp only at hlfn
                  split at hlfn
                  · cases hlfn
                    exact hrun r hr
                  · cases hlfn
                · cases hlfn
              case h_2 => exact Nat.le_refl _
            · exact ih (fun _ hr => by cases hr) h

theorem getElem?_of_mem_visibleEntries (h : e ∈ visibleEntries v dir) :
    (slotsOf v dir)[e.sfnSlot]? = some e.sfn ∧ e.sfn.isFree = false := by
  rw [visibleEntries, mem_filter, entries_eq] at h
  exact (mem_entriesOf h.1).2

theorem lfnStartSlot_le (h : e ∈ visibleEntries v dir) : e.lfnStartSlot ≤ e.sfnSlot := by
  rw [visibleEntries, mem_filter, entries_eq] at h
  exact lfnStartSlot_le_of_mem (fun _ hr => by cases hr) h.1

theorem notMem_visible_of_free {s : Slot} {x : List WStr × (Nat × Nat) × Content}
    (hslot : (slotsOf v dir)[slot]? = some s) (hfree : s.isFree = true) (hx : x.2.1 = (dir, slot)) :
    x ∉ v.visible := by
  rintro ⟨path, dir', e, _, he, rfl⟩
  obtain ⟨rfl, rfl⟩ := Prod.mk.inj hx
  obtain ⟨hget, hused⟩ := getElem?_of_mem_visibleEntries he
  rw [hslot] at hget
  cases hget
  rw [hfree] at hused
  cases hused

structure Beside (v : Volume) (ds : List Nat) (v' : Volume) : Prop where
  geometry : v'.toGeometry = v.toGeometry
  entry : ∀ c, v.entry c ≠ 0 → c ∉ ds → v'.entry c = v.entry c
  disk : ∀ c, v.IsDataCluster c → v.entry c ≠ 0 → c ∉ ds → ∀ i < v.sectorsPerCluster,
    v'.disk (fatClusterToSector v c + i) = v.disk (fatClusterToSector v c + i)

theorem Beside.refl (v : Volume) (ds : List Nat) : Beside v ds v :=
  ⟨rfl, fun _ _ _ => rfl, fun _ _ _ _ _ _ => rfl⟩

theorem Beside.trans {ds ds' : List Nat} (h : Beside v ds v') (h' : Beside v' ds' v'')
    (hsub : ∀ c ∈ ds', c ∈ ds ∨ v.entry c = 0) : Beside v ds v'' := by
  have hout : ∀ c, v.entry c ≠ 0 → c ∉ ds → c ∉ ds' := fun c hused hnot hmem =>
    (hsub c hmem).elim hnot hused
  have hstill : ∀ c, v.entry c ≠ 0 → c ∉ ds → v'.entry c ≠ 0 := by
    intro c hused hnot
    rw [h.entry c hused hnot]
    exact hused
  refine ⟨h'.geometry.trans h.geometry, fun c hused hnot => ?_, fun c hdata hused hnot i hi => ?_⟩
  · rw [h'.entry c (hstill c hused hnot) (hout c hused hnot), h.entry c hused hnot]
  · have hnext := h'.disk c ((isDataCluster_congr h.geometry).mpr hdata) (hstill c hused hnot)
      (hout c hused hnot) i (by rw [h.geometry]; exact hi)
    rw [fatClusterToSector_congr h.geometry] at hnext
    rw [hnext, h.disk c hdata hused hnot i hi]

theorem Beside.mono {ds ds' : List Nat} (h : Beside v ds v') (hsub : ds ⊆ ds') : Beside v ds' v' :=
  ⟨h.geometry, fun c hused hnot => h.entry c hused fun hmem => hnot (hsub hmem),
    fun c hdata hused hnot => h.disk c hdata hused fun hmem => hnot (hsub hmem)⟩

theorem Wrote.beside {ds : List Nat} (h : Wrote v ds v') (hds : ∀ c ∈ ds, v.IsDataCluster c) :
    Beside v ds v' := by
  refine ⟨h.geometry, fun c _ _ => ?_, fun c hdata _ hnot i hi => h.disk _ fun c' hc' j hj heq => ?_⟩
  · rw [Volume.entry, Volume.entry, h.fat]
  · exact hnot ((clusterSector_inj (hds c' hc') hdata hj hi heq).1 ▸ hc')

theorem Grown.beside {ds fresh : List Nat} (h : Grown v ds fresh v') : Beside v ds v' := by
  have hfresh : ∀ c, v.entry c ≠ 0 → c ∉ fresh := fun c hused hmem => hused (h.free c hmem)
  refine ⟨h.geometry, fun c hused hnot => h.entry c hnot (hfresh c hused),
    fun c hdata hused _ i hi => h.disk _ (firstDataSector_le ..) fun c' hc' j hj heq => ?_⟩
  exact hfresh c hused ((clusterSector_inj (h.data c' hc') hdata hj hi heq).1 ▸ hc')

theorem Volume.IsChain.free_beside {first : Nat} {cs : List Nat} (h : v.IsChain first cs) :
    Beside v cs (fatFreeChain v first) := by
  obtain ⟨hsame, hentry⟩ := h.free
  refine ⟨hsame.geometry, fun c _ hnot => ?_, fun c _ _ _ i _ => hsame.disk _ (firstDataSector_le ..)⟩
  rw [hentry, if_neg hnot]

section
variable {first : Nat} {cs ds : List Nat}

section
variable (h : Beside v ds v') (hchain : v.IsChain first cs) (hapart : ∀ c ∈ cs, c ∉ ds)
include h hchain hapart

theorem Beside.isChain :
    v'.IsChain first cs :=
  hchain.congr h.geometry fun c hc => h.entry c (hchain.used c hc) (hapart c hc)

theorem Beside.slotsOf : Fat.slotsOf v' first = Fat.slotsOf v first := by
  have hslots : fatSlotsPerCluster v' = fatSlotsPerCluster v := by
    rw [fatSlotsPerCluster, fatSlotsPerCluster, h.geometry]
  rw [(h.isChain hchain hapart).slotsOf, hchain.slotsOf]
  apply flatMap_congr_left
  intro c hc
  rw [clusterSlots, clusterSlots, hslots]
  apply map_congr_left
  intro w hw
  rw [fatClusterToSector_congr h.geometry, h.disk c (hchain.data c hc) (hchain.used c hc)
    (hapart c hc) _ (within_lt (mem_range.mp hw))]

theorem Beside.visibleEntries : Fat.visibleEntries v' first = Fat.visibleEntries v first := by
  rw [Fat.visibleEntries, Fat.visibleEntries, h.slotsOf hchain hapart]

theorem Beside.fileByte (p : Nat) : Fat.fileByte v' first p = Fat.fileByte v first p := by
  rw [Fat.fileByte, Fat.fileByte, (h.isChain hchain hapart).walk, hchain.walk,
    fatClusterBytes_congr h.geometry, getD_eq_getElem?_getD]
  cases hc : cs[p / fatClusterBytes v]? with
  | none => rfl
  | some c =>
    have hmem := mem_of_getElem? hc
    have hsector := h.disk c (hchain.data c hmem) (hchain.used c hmem) (hapart c hmem) _
      (sector_lt (p := p) v)
    rw [Option.getD_some, clusterByte, clusterByte, fatClusterToSector_congr h.geometry, fatSectorSize,
      hsector]

end

end

end

end Proskrnl.Fat
