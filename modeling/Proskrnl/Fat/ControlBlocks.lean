import Proskrnl.Fat.Rename

/-!
# Control blocks and the entries they stand for

`Consistent` is what is asked of a volume, `FcbsOn` of its control blocks: each is the file of the entry
that it names, and a directory has one of them. `FatGetFcb`, `FatLookup` and `FatResolveParent` only load
blocks, and keep it so.
-/

namespace Proskrnl.Fat
open List

def Volume.IsDir (v : Volume) (dir : Nat) : Prop := ∃ path, v.DirectoryAt path dir

/-- The directories are a tree, and their chains are apart from each other and from those of files. -/
structure Consistent (v : Volume) : Prop where
  sized : v.Sized
  limit : v.WithinLimit
  directory : ∀ {dir}, v.IsDir dir → ∃ ds, ds ≠ [] ∧ v.IsChain dir ds
  file : ∀ {dir e}, v.IsDir dir → e ∈ visibleEntries v dir → e.isDirectory = false →
    ∃ cs, v.IsChain (e.first v) cs
  apart : ∀ {dir dir' ds ds'}, v.IsDir dir → v.IsDir dir' → dir ≠ dir' → v.IsChain dir ds →
    v.IsChain dir' ds' → ∀ c ∈ ds, c ∉ ds'
  apart_file : ∀ {dir dir' e ds cs}, v.IsDir dir → v.IsDir dir' → e ∈ visibleEntries v dir' →
    e.isDirectory = false → v.IsChain dir ds → v.IsChain (e.first v) cs → ∀ c ∈ ds, c ∉ cs
  named_once : ∀ {dir dir' e e'}, v.IsDir dir → v.IsDir dir' → e ∈ visibleEntries v dir →
    e' ∈ visibleEntries v dir' → e.isDirectory = true → e'.isDirectory = true →
    e.first v = e'.first v → dir = dir' ∧ e.sfnSlot = e'.sfnSlot
  root_unnamed : ∀ {dir e}, v.IsDir dir → e ∈ visibleEntries v dir → e.isDirectory = true →
    e.first v ≠ v.rootCluster

/-- A control block that stands for a file there is. -/
def Mounted.Live (m : Mounted) (i : Nat) : Prop := i < m.fcbs.length ∧ (m.fcb i).entryDeleted = false

structure EntryOf (m : Mounted) (fcb : Fcb) (p : Nat) (e : WalkEntry) : Prop where
  notRoot : fcb.isRoot = false
  parent : fcb.parent = some p
  live : m.Live p
  isDirectory : (m.fcb p).isDirectory = true
  key : fcb.parentDirCluster = m.dirCluster p
  mem : e ∈ visibleEntries m.volume (m.dirCluster p)
  slot : fcb.dirEntryIndex = e.sfnSlot
  start : fcb.lfnStartIndex = e.lfnStartSlot
  kind : fcb.isDirectory = e.isDirectory
  first : fcb.firstCluster = e.first m.volume

/-- The control blocks of a volume: those in use stand for entries, and a directory has one of them. -/
structure FcbsOn (m : Mounted) : Prop where
  root : m.Live m.root ∧ (m.fcb m.root).isRoot = true
  root_directory : ∀ {i}, m.Live i → (m.fcb i).isRoot = true → (m.fcb i).isDirectory = true
  entry : ∀ {i}, m.Live i → (m.fcb i).isRoot = false → ∃ p e, EntryOf m (m.fcb i) p e
  directory : ∀ {i}, m.Live i → (m.fcb i).isDirectory = true → m.volume.IsDir (m.dirCluster i)
  once : ∀ {i j}, m.Live i → m.Live j → (m.fcb i).isDirectory = true → (m.fcb j).isDirectory = true →
    m.dirCluster i = m.dirCluster j → i = j

section
variable {m m' : Mounted} {i j dir : Nat} {e : WalkEntry} {fcb : Fcb}

structure Loaded (m m' : Mounted) : Prop where
  volume : m'.volume = m.volume
  root : m'.root = m.root
  fcb : ∀ i < m.fcbs.length, m'.fcb i = m.fcb i
  length : m.fcbs.length ≤ m'.fcbs.length

theorem Loaded.refl (m : Mounted) : Loaded m m := ⟨rfl, rfl, fun _ _ => rfl, Nat.le_refl _⟩

theorem Loaded.trans {m'' : Mounted} (h : Loaded m m') (h' : Loaded m' m'') : Loaded m m'' :=
  ⟨h'.volume.trans h.volume, h'.root.trans h.root,
    fun i hi => (h'.fcb i (Nat.lt_of_lt_of_le hi h.length)).trans (h.fcb i hi),
    Nat.le_trans h.length h'.length⟩

theorem Loaded.live (h : Loaded m m') (hi : m.Live i) : m'.Live i := by
  refine ⟨Nat.lt_of_lt_of_le hi.1 h.length, ?_⟩
  rw [h.fcb i hi.1]
  exact hi.2

theorem Loaded.dirCluster (h : Loaded m m') (hi : i < m.fcbs.length) :
    m'.dirCluster i = m.dirCluster i := by
  rw [Mounted.dirCluster, Mounted.dirCluster, h.fcb i hi, h.volume]

theorem Loaded.entryOf {p : Nat} (h : Loaded m m') (he : EntryOf m fcb p e) : EntryOf m' fcb p e := by
  have hlt := he.live.1
  refine ⟨he.notRoot, he.parent, h.live he.live, ?_, ?_, ?_, he.slot, he.start, he.kind, ?_⟩
  · rw [h.fcb p hlt]
    exact he.isDirectory
  · rw [h.dirCluster hlt]
    exact he.key
  · rw [h.dirCluster hlt, h.volume]
    exact he.mem
  · rw [h.volume]
    exact he.first

theorem fcb_append_left {l : List Fcb} (hi : i < m.fcbs.length) :
    ({ m with fcbs := m.fcbs ++ l } : Mounted).fcb i = m.fcb i := by
  rw [Mounted.fcb, Mounted.fcb, getD_eq_getElem?_getD, getD_eq_getElem?_getD,
    getElem?_append_left hi]

theorem loaded_append (m : Mounted) (l : List Fcb) : Loaded m { m with fcbs := m.fcbs ++ l } := by
  refine ⟨rfl, rfl, fun i hi => fcb_append_left hi, ?_⟩
  rw [length_append]
  exact Nat.le_add_right _ _

theorem fcb_eq_getElem (hi : i < m.fcbs.length) : m.fcb i = m.fcbs[i] := by
  rw [Mounted.fcb, getD_eq_getElem?_getD, getElem?_eq_getElem hi]
  rfl

theorem eq_of_mem_visibleEntries {v : Volume} {e' : WalkEntry} (he : e ∈ visibleEntries v dir)
    (he' : e' ∈ visibleEntries v dir) (h : e.sfnSlot = e'.sfnSlot) : e = e' :=
  eq_of_sfnSlot_eq (mem_filter.mp he).1 (mem_filter.mp he').1 h

section
variable (h : FcbsOn m) (hv : Consistent m.volume) (hdir : m.Live dir)
  (hdirectory : (m.fcb dir).isDirectory = true)
  (he : e ∈ visibleEntries m.volume (m.dirCluster dir))
include h hv hdir hdirectory he

theorem FcbsOn.load
    (hnone : ∀ j, m.Live j → (m.fcb j).isRoot = false →
      (m.fcb j).parentDirCluster = m.dirCluster dir → (m.fcb j).dirEntryIndex ≠ e.sfnSlot)
    (hm' : m' = { m with fcbs := m.fcbs ++ [loadFcb m.volume dir (m.dirCluster dir) e] }) :
    FcbsOn m' ∧ m'.Live m.fcbs.length ∧ EntryOf m' (m'.fcb m.fcbs.length) dir e := by
  have hload : Loaded m m' := hm' ▸ loaded_append m _
  have hlength : m'.fcbs.length = m.fcbs.length + 1 := by
    rw [hm', length_append]
    rfl
  have hnew : m'.fcb m.fcbs.length = loadFcb m.volume dir (m.dirCluster dir) e := by
    rw [hm', Mounted.fcb, getD_eq_getElem?_getD, getElem?_concat_length]
    rfl
  have hcluster : m'.dirCluster m.fcbs.length = e.first m.volume := by
    rw [Mounted.dirCluster, hnew]
    rfl
  have hlive : m'.Live m.fcbs.length := ⟨by omega, by rw [hnew]; rfl⟩
  have hentry : EntryOf m' (m'.fcb m.fcbs.length) dir e := by
    rw [hnew]
    have hlt := hdir.1
    refine ⟨rfl, rfl, hload.live hdir, ?_, ?_, ?_, rfl, rfl, rfl, ?_⟩
    · rw [hload.fcb dir hlt]
      exact hdirectory
    · exact (hload.dirCluster hlt).symm
    · rw [hload.dirCluster hlt, hload.volume]
      exact he
    · rw [hload.volume]
      rfl
  -- a block of the table is one there was or the new one
  have hcases : ∀ i, m'.Live i → m.Live i ∧ m'.fcb i = m.fcb i ∨ i = m.fcbs.length := by
    intro i hi
    by_cases hlt : i < m.fcbs.length
    · refine .inl ⟨⟨hlt, ?_⟩, hload.fcb i hlt⟩
      rw [← hload.fcb i hlt]
      exact hi.2
    · have := hi.1
      exact .inr (by omega)
  have hdirAt : m.volume.IsDir (m.dirCluster dir) := h.directory hdir hdirectory
  -- no other directory starts where the new one does
  have hother : e.isDirectory = true → ∀ j, m.Live j → (m.fcb j).isDirectory = true →
      m.dirCluster j ≠ e.first m.volume := by
    intro hkind j hj hjdir heq
    cases hroot : (m.fcb j).isRoot with
    | true =>
      rw [Mounted.dirCluster, hroot, if_pos rfl] at heq
      exact hv.root_unnamed hdirAt he hkind heq.symm
    | false =>
      obtain ⟨p, e', he'⟩ := h.entry hj hroot
      rw [Mounted.dirCluster, hroot, if_neg (by nofun), he'.first] at heq
      obtain ⟨hsame, hslot⟩ := hv.named_once (h.directory he'.live he'.isDirectory) hdirAt he'.mem he
        (he'.kind ▸ hjdir) hkind heq
      exact hnone j hj hroot (he'.key.trans hsame) (he'.slot.trans hslot)
  refine ⟨⟨?_, fun {i} hi hroot => ?_, fun {i} hi hroot => ?_, fun {i} hi hdir' => ?_,
    fun {i j} hi hj hidir hjdir heq => ?_⟩, hlive, hentry⟩
  · rw [hload.root, hload.fcb _ h.root.1.1]
    exact ⟨hload.live h.root.1, h.root.2⟩
  · obtain ⟨hold, heq⟩ | rfl := hcases i hi
    · rw [heq] at hroot ⊢
      exact h.root_directory hold hroot
    · rw [hnew] at hroot
      cases hroot
  · obtain ⟨hold, heq⟩ | rfl := hcases i hi
    · rw [heq] at hroot ⊢
      obtain ⟨p, e', he'⟩ := h.entry hold hroot
      exact ⟨p, e', hload.entryOf he'⟩
    · exact ⟨dir, e, hentry⟩
  · obtain ⟨hold, heq⟩ | rfl := hcases i hi
    · rw [heq] at hdir'
      rw [hload.dirCluster hold.1, hload.volume]
      exact h.directory hold hdir'
    · rw [hcluster, hload.volume]
      rw [hnew] at hdir'
      obtain ⟨path, hpath⟩ := hdirAt
      exact ⟨_, .entry hpath he hdir'⟩
  · obtain ⟨hiold, hieq⟩ | rfl := hcases i hi <;> obtain ⟨hjold, hjeq⟩ | rfl := hcases j hj
    · rw [hload.dirCluster hiold.1, hload.dirCluster hjold.1] at heq
      exact h.once hiold hjold (hieq ▸ hidir) (hjeq ▸ hjdir) heq
    · rw [hload.dirCluster hiold.1, hcluster] at heq
      rw [hnew] at hjdir
      exact absurd heq (hother hjdir i hiold (hieq ▸ hidir))
    · rw [hload.dirCluster hjold.1, hcluster] at heq
      rw [hnew] at hidir
      exact absurd heq.symm (hother hidir j hjold (hjeq ▸ hjdir))
    · rfl

theorem FcbsOn.getFcb
    (hget : fatGetFcb m dir e = (i, m')) :
    Loaded m m' ∧ FcbsOn m' ∧ m'.Live i ∧
      ∃ p, EntryOf m' (m'.fcb i) p e ∧ m'.dirCluster p = m.dirCluster dir := by
  rw [fatGetFcb] at hget
  split at hget
  case h_1 i' hfound =>
    cases hget
    obtain ⟨hlt, hmatch, _⟩ := findIdx?_eq_some_iff_getElem.mp hfound
    rw [← fcb_eq_getElem hlt] at hmatch
    simp only [Bool.and_eq_true, decide_eq_true_eq, Bool.not_eq_true'] at hmatch
    obtain ⟨⟨⟨hkey, hslot⟩, hroot⟩, hlive⟩ := hmatch
    obtain ⟨p, e', he'⟩ := h.entry ⟨hlt, hlive⟩ hroot
    have hp : m.dirCluster p = m.dirCluster dir := he'.key.symm.trans hkey
    have hsame : e' = e := eq_of_mem_visibleEntries (hp ▸ he'.mem) he (he'.slot.symm.trans hslot)
    exact ⟨.refl m, h, ⟨hlt, hlive⟩, p, hsame ▸ he', hp⟩
  case h_2 hnone =>
    obtain ⟨rfl, hm'⟩ := Prod.mk.inj hget
    have hload : Loaded m m' := hm' ▸ loaded_append m _
    rw [findIdx?_eq_none_iff] at hnone
    have hfree : ∀ j, m.Live j → (m.fcb j).isRoot = false →
        (m.fcb j).parentDirCluster = m.dirCluster dir → (m.fcb j).dirEntryIndex ≠ e.sfnSlot := by
      intro j hj hroot hkey hslot
      have hfalse := hnone _ (getElem_mem hj.1)
      rw [← fcb_eq_getElem hj.1] at hfalse
      simp [hkey, hslot, hroot, hj.2] at hfalse
    obtain ⟨hon, hlive, hentry⟩ := h.load hv hdir hdirectory he hfree hm'.symm
    exact ⟨hload, hon, hlive, dir, hentry, hload.dirCluster hdir.1⟩

end

/-- The table behind a lookup is one that was loaded into, and its blocks stand for entries as before. -/
structure Looked (m m' : Mounted) : Prop where
  loaded : Loaded m m'
  fcbs : FcbsOn m'

theorem Looked.trans {m'' : Mounted} (h : Looked m m') (h' : Looked m' m'') : Looked m m'' :=
  ⟨h.loaded.trans h'.loaded, h'.fcbs⟩

section
variable (h : FcbsOn m) (hv : Consistent m.volume) (hdir : m.Live dir)
  (hdirectory : (m.fcb dir).isDirectory = true)
include h hv hdir hdirectory

theorem FcbsOn.lookup {component : WStr} {result : Except NtStatus Nat}
    (hlookup : fatLookup m dir component = (result, m')) :
    Looked m m' ∧ ∀ i, result = .ok i → m'.Live i ∧
      ∃ p e, EntryOf m' (m'.fcb i) p e ∧ m'.dirCluster p = m.dirCluster dir := by
  rw [fatLookup] at hlookup
  split at hlookup
  case h_1 =>
    cases hlookup
    exact ⟨⟨.refl m, h⟩, nofun⟩
  case h_2 e hfound =>
    have he : e ∈ visibleEntries m.volume (m.dirCluster dir) := mem_of_find?_eq_some hfound
    cases hget : fatGetFcb m dir e with
    | mk i m1 =>
      rw [hget] at hlookup
      cases hlookup
      obtain ⟨hload, hon, hlive, p, hentry, hp⟩ := h.getFcb hv hdir hdirectory he hget
      refine ⟨⟨hload, hon⟩, fun j hj => ?_⟩
      cases hj
      exact ⟨hlive, p, e, hentry, hp⟩

theorem FcbsOn.resolveLoop {rounds : Nat} {remaining : WStr}
    {result : Except NtStatus (Nat × WStr)}
    (hresolve : Fat.resolveLoop rounds m dir remaining = (result, m')) :
    Looked m m' ∧ ∀ p leaf, result = .ok (p, leaf) →
      m'.Live p ∧ (m'.fcb p).isDirectory = true := by
  induction rounds generalizing m dir remaining with
  | zero =>
    cases hresolve
    refine ⟨⟨.refl _, h⟩, fun p leaf heq => ?_⟩
    cases heq
    exact ⟨hdir, hdirectory⟩
  | succ rounds ih =>
    rw [Fat.resolveLoop] at hresolve
    split at hresolve
    case isTrue =>
      cases hresolve
      refine ⟨⟨.refl _, h⟩, fun p leaf heq => ?_⟩
      cases heq
      exact ⟨hdir, hdirectory⟩
    case isFalse =>
      cases hlookup : fatLookup m dir (remaining.takeWhile (· ≠ separator)) with
      | mk found m1 =>
        rw [hlookup] at hresolve
        obtain ⟨hlooked, hfound⟩ := h.lookup hv hdir hdirectory hlookup
        cases found with
        | error status =>
          cases hresolve
          exact ⟨hlooked, nofun⟩
        | ok child =>
          simp only at hresolve
          split at hresolve
          case isTrue =>
            cases hresolve
            exact ⟨hlooked, nofun⟩
          case isFalse hchild =>
            rw [Bool.not_eq_true', Bool.not_eq_false] at hchild
            obtain ⟨hlooked', hresult⟩ := ih hlooked.fcbs (hlooked.loaded.volume ▸ hv)
              (hfound child rfl).1 hchild hresolve
            exact ⟨hlooked.trans hlooked', hresult⟩

theorem FcbsOn.resolveParent {path : WStr} {result : Except NtStatus (Nat × WStr × Bool)}
    (hresolve : fatResolveParent m dir path = (result, m')) :
    Looked m m' ∧ ∀ p leaf slash, result = .ok (p, leaf, slash) →
      m'.Live p ∧ (m'.fcb p).isDirectory = true := by
  rw [fatResolveParent] at hresolve
  generalize (if path.head? = some separator then path.drop 1 else path) = remaining at hresolve
  simp only at hresolve
  split at hresolve
  case isTrue =>
    cases hresolve
    exact ⟨⟨.refl m, h⟩, nofun⟩
  case isFalse =>
    split at hresolve
    case h_1 status m1 hloop =>
      cases hresolve
      exact ⟨(h.resolveLoop hv hdir hdirectory hloop).1, nofun⟩
    case h_2 p leaf m1 hloop =>
      cases hresolve
      obtain ⟨hlooked, hresult⟩ := h.resolveLoop hv hdir hdirectory hloop
      refine ⟨hlooked, fun p' leaf' slash heq => ?_⟩
      cases heq
      exact hresult p leaf rfl

end

end

end Proskrnl.Fat
