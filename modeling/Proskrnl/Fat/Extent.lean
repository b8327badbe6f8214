import Proskrnl.Fat.File

/-!
# Chains that grow and shrink

What the loops of `FatFreeChain` and of `FatSetFileSize` do to the FAT and to the data: a chain set
free, a chain cut, a chain with zeroed clusters behind it, and an extension taken back. Each is said
entry by entry, so that every chain apart from the one that changes is as it was.
-/

namespace Proskrnl.Fat
open Chains List

section
variable {v v' : Volume} {first c : Nat} {cs : List Nat}

/-! ## A chain set free -/

theorem freeChainLoop_eq (rounds : Nat) (h : v.IsChain first cs) (hrounds : cs.length ≤ rounds) :
    SameData v (freeChainLoop rounds v first) ∧
      ∀ c, (freeChainLoop rounds v first).entry c = if c ∈ cs then 0 else v.entry c := by
  induction rounds generalizing v first cs with
  | zero =>
    rw [length_eq_zero_iff.mp (Nat.le_zero.mp hrounds)]
    exact ⟨.refl v, fun c => (if_neg (not_mem_nil)).symm⟩
  | succ rounds ih =>
    rw [freeChainLoop]
    cases cs with
    | nil =>
      have hzero : first = 0 := h.first_eq
      rw [if_neg (show ¬ v.IsDataCluster first from fun hdata => absurd hdata.1 (by omega))]
      exact ⟨.refl v, fun c => (if_neg (not_mem_nil)).symm⟩
    | cons a cs =>
      obtain ⟨rfl, htail⟩ := h.tail
      have hdata := h.data first (mem_cons_self ..)
      have hfresh : first ∉ cs := (nodup_cons.mp h.linked.nodup).1
      rw [if_pos hdata]
      -- the rest of the chain does not go through the entry that is cleared
      have htail' : (fatSetFatEntry v first 0).IsChain (fatGetNextCluster v first) cs := by
        refine htail.congr rfl fun c hc => ?_
        rw [entry_fatSetFatEntry, if_neg (show ¬ c = first from fun heq => hfresh (heq ▸ hc))]
      obtain ⟨hsame, hentry⟩ := ih htail' (by simpa using hrounds)
      refine ⟨(sameData_fatSetFatEntry hdata 0).trans hsame, fun c => ?_⟩
      rw [hentry, entry_fatSetFatEntry]
      by_cases hc : c ∈ cs
      · rw [if_pos hc, if_pos (mem_cons_of_mem _ hc)]
      · rw [if_neg hc]
        by_cases heq : c = first
        · rw [if_pos heq, if_pos (heq ▸ mem_cons_self ..), Nat.zero_mod]
        · rw [if_neg heq, if_neg fun hmem => (mem_cons.mp hmem).elim heq hc]

theorem Volume.IsChain.free (h : v.IsChain first cs) :
    SameData v (fatFreeChain v first) ∧
      ∀ c, (fatFreeChain v first).entry c = if c ∈ cs then 0 else v.entry c := by
  rw [fatFreeChain]
  cases cs with
  | nil =>
    have hzero : first = 0 := h.first_eq
    rw [if_neg (show ¬ v.IsDataCluster first from fun hdata => absurd hdata.1 (by omega))]
    exact ⟨.refl v, fun c => (if_neg (not_mem_nil)).symm⟩
  | cons a cs =>
    obtain ⟨rfl, _⟩ := h.tail
    rw [if_pos (h.data first (mem_cons_self ..))]
    have hle := h.length_le
    obtain ⟨hsame, hentry⟩ := freeChainLoop_eq (v.clusterCount + 2) h (by omega)
    refine ⟨hsame.trans (sameData_fatUpdateFsInfo _), fun c => ?_⟩
    rw [entry_fatUpdateFsInfo, hentry]

variable {cs' fresh : List Nat}

theorem Volume.IsChain.keep (h : v.IsChain first cs)
    (hgeometry : v'.toGeometry = v.toGeometry) (hentry : ∀ c, c ∉ cs' → v'.entry c = v.entry c)
    (hapart : ∀ c ∈ cs, c ∉ cs') : v'.IsChain first cs :=
  h.congr hgeometry fun c hc => hentry c (hapart c hc)

/-! ## A chain cut -/

theorem Volume.IsChain.front {front rest : List Nat} (h : v.IsChain first (front ++ rest))
    (hgeometry : v'.toGeometry = v.toGeometry)
    (hentry : ∀ c ∈ front, v'.entry c = if c = front.getLastD 0 then fatEntryMask else v.entry c) :
    v'.IsChain (if front = [] then 0 else first) front := by
  rcases eq_nil_or_concat front with rfl | ⟨l, a, rfl⟩
  · exact ⟨.nil, nofun, nofun⟩
  · rw [concat_eq_append] at *
    rw [if_neg (by simp)]
    rw [getLastD_concat] at hentry
    refine ⟨?_, fun c hc => ?_, fun c hc => ?_⟩
    · have hlinked := h.linked
      rw [append_assoc, singleton_append] at hlinked
      refine hlinked.cut.1.congr fun c hc => ?_
      rw [Function.update_apply]
      split
      case isTrue heq =>
        rw [Volume.next?, hentry c hc, if_pos heq]
        split <;> rfl
      case isFalse hne =>
        apply next?_congr hgeometry
        rw [hentry c hc, if_neg hne]
    · exact (isDataCluster_congr hgeometry).mpr (h.data c (mem_append_left _ hc))
    · rw [hentry c hc]
      split
      · decide
      · exact h.used c (mem_append_left _ hc)

theorem fatFreeChain_zero (v : Volume) : fatFreeChain v 0 = v :=
  if_neg fun hdata => absurd hdata.1 (by omega)

theorem getLastD_take {n : Nat} (hn : n < cs.length) : (cs.take (n + 1)).getLastD 0 = cs[n] := by
  rw [take_succ_eq_append_getElem hn, getLastD_concat]

/-- `FatSetFileSize` cuts the chain behind its first `want` clusters and frees the rest. -/
theorem Volume.IsChain.cut {want : Nat} (h : v.IsChain first cs) (hwant : want < cs.length) :
    SameData v (cutChain v first want).2 ∧
      (cutChain v first want).2.IsChain (cutChain v first want).1 (cs.take want) ∧
      ∀ c, c ∉ cs.take want → (cutChain v first want).2.entry c =
        if c ∈ cs.drop want then 0 else v.entry c := by
  rw [cutChain]
  by_cases hzero : want = 0
  · subst hzero
    rw [if_pos rfl, take_zero, drop_zero]
    obtain ⟨hsame, hentry⟩ := h.free
    exact ⟨hsame, ⟨.nil, nofun, nofun⟩, fun c _ => hentry c⟩
  · rw [if_neg hzero]
    obtain ⟨n, rfl⟩ := Nat.exists_eq_succ_of_ne_zero hzero
    have hn : n < cs.length := by omega
    have hlast : fatWalkChain v first (n + 1 - 1) = cs[n] := by
      rw [h.walk, Nat.add_sub_cancel, getD_eq_getElem?_getD, getElem?_eq_getElem hn]
      rfl
    have hdata := h.data cs[n] (getElem_mem hn)
    have hsplit : v.IsChain first (cs.take (n + 1) ++ cs.drop (n + 1)) := by
      rwa [take_append_drop]
    have hapart : ∀ c ∈ cs.drop (n + 1), c ∉ cs.take (n + 1) := fun c hc hc' =>
      (nodup_append.mp hsplit.linked.nodup).2.2 c hc' c hc rfl
    have hnext : fatGetNextCluster v cs[n] = cs.getD (n + 1) 0 := by
      have hlinked := h.linked
      rw [← take_append_drop n cs, ← getElem_cons_drop hn] at hlinked
      rw [fatGetNextCluster_eq, hlinked.next_of_append, head?_drop, getD_eq_getElem?_getD]
    rw [Nat.succ_eq_add_one, hlast]
    simp only [hnext]
    have hset : ∀ c, (fatSetFatEntry v cs[n] fatEntryMask).entry c =
        if c = cs[n] then fatEntryMask else v.entry c := fun c => by
      rw [entry_fatSetFatEntry]
      rfl
    have hmem : cs[n] ∈ cs.take (n + 1) := by
      rw [take_succ_eq_append_getElem hn]
      exact mem_append_right _ (mem_singleton_self _)
    have hrest : (fatSetFatEntry v cs[n] fatEntryMask).IsChain (cs.getD (n + 1) 0)
        (cs.drop (n + 1)) := by
      refine (h.drop (n + 1)).congr rfl fun c hc => ?_
      rw [hset, if_neg (show ¬ c = cs[n] from fun heq => hapart c hc (heq ▸ hmem))]
    obtain ⟨hfreeSame, hfreeEntry⟩ := hrest.free
    have hif : (if cs.getD (n + 1) 0 ≠ 0 then
        fatFreeChain (fatSetFatEntry v cs[n] fatEntryMask) (cs.getD (n + 1) 0)
        else fatSetFatEntry v cs[n] fatEntryMask) =
        fatFreeChain (fatSetFatEntry v cs[n] fatEntryMask) (cs.getD (n + 1) 0) := by
      split
      · rfl
      case isFalse hnone => rw [not_not.mp hnone, fatFreeChain_zero]
    rw [hif]
    have hsame := (sameData_fatSetFatEntry hdata fatEntryMask).trans hfreeSame
    have hentry : ∀ c, (fatFreeChain (fatSetFatEntry v cs[n] fatEntryMask) (cs.getD (n + 1) 0)).entry c =
        if c ∈ cs.drop (n + 1) then 0 else if c = cs[n] then fatEntryMask else v.entry c := fun c => by
      rw [hfreeEntry, hset]
    refine ⟨hsame, ?_, fun c hc => ?_⟩
    · have hfront := hsplit.front hsame.geometry fun c hc => by
        rw [hentry, if_neg fun hmem' => hapart c hmem' hc, getLastD_take hn]
      rwa [if_neg (ne_nil_of_mem hmem)] at hfront
    · rw [hentry, if_neg (show ¬ c = cs[n] from fun heq => hc (heq ▸ hmem))]

/-! ## A chain that grows -/

/-- Clusters that were free stand zeroed behind a chain now; of the entries in use only that of its
last cluster is another. -/
structure Grown (v : Volume) (cs fresh : List Nat) (v' : Volume) : Prop where
  geometry : v'.toGeometry = v.toGeometry
  data : ∀ c ∈ fresh, v.IsDataCluster c
  free : ∀ c ∈ fresh, v.entry c = 0
  entry : ∀ c, c ∉ cs → c ∉ fresh → v'.entry c = v.entry c
  zeroed : ∀ c ∈ fresh, ∀ j < v.sectorsPerCluster,
    v'.disk (fatClusterToSector v c + j) = List.replicate fatSectorSize 0
  disk : ∀ s, v.firstDataSector ≤ s →
    (∀ c ∈ fresh, ∀ j < v.sectorsPerCluster, fatClusterToSector v c + j ≠ s) → v'.disk s = v.disk s

theorem Grown.nil (v : Volume) (cs : List Nat) : Grown v cs [] v :=
  ⟨rfl, nofun, nofun, fun _ _ _ => rfl, nofun, fun _ _ _ => rfl⟩

theorem fatClusterToSector_congr (hgeometry : v'.toGeometry = v.toGeometry) (c : Nat) :
    fatClusterToSector v' c = fatClusterToSector v c := by
  rw [fatClusterToSector, fatClusterToSector, hgeometry]

theorem Grown.concat {last : Nat} {v1 : Volume} (h : Grown v cs fresh v')
    (hchain : v'.IsChain first (cs ++ fresh)) (hlast : last ≠ 0 → last ∈ cs ++ fresh)
    (halloc : Allocated v' last c v1) : Grown v cs (fresh ++ [c]) (zeroCluster v1 c) := by
  have hgeometry : v1.toGeometry = v.toGeometry := halloc.same.geometry.trans h.geometry
  have hsector := fatClusterToSector_congr hgeometry
  have hnotMem := halloc.notMem hchain
  have hdata : v.IsDataCluster c := (isDataCluster_congr h.geometry).mp halloc.data
  have hfree : v.entry c = 0 := by
    rw [← h.entry c (fun hmem => hnotMem (mem_append_left _ hmem))
      (fun hmem => hnotMem (mem_append_right _ hmem))]
    exact halloc.free
  have hspc : v1.sectorsPerCluster = v.sectorsPerCluster := by rw [hgeometry]
  have hfds : v'.firstDataSector = v.firstDataSector := by rw [h.geometry]
  refine ⟨hgeometry, fun a ha => ?_, fun a ha => ?_, fun a ha ha' => ?_, fun a ha j hj => ?_,
    fun s hs hout => ?_⟩
  · obtain ha | ha := mem_append.mp ha
    · exact h.data a ha
    · rw [mem_singleton.mp ha]
      exact hdata
  · obtain ha | ha := mem_append.mp ha
    · exact h.free a ha
    · rw [mem_singleton.mp ha]
      exact hfree
  · have hne : a ≠ c := fun heq => ha' (mem_append_right _ (mem_singleton.mpr heq))
    have hfresh : a ∉ fresh := fun hmem => ha' (mem_append_left _ hmem)
    have hnotLast : ¬ (a = last ∧ last ≠ 0) := by
      rintro ⟨rfl, hpos⟩
      exact (mem_append.mp (hlast hpos)).elim ha hfresh
    change v1.entry a = _
    rw [halloc.entry, if_neg hnotLast, if_neg hne, h.entry a ha hfresh]
  · rw [disk_zeroCluster]
    by_cases hin : ∃ i < v1.sectorsPerCluster,
        fatClusterToSector v1 c + i = fatClusterToSector v a + j
    · rw [if_pos hin]
    · rw [if_neg hin, halloc.same.disk _ (by rw [hfds]; exact firstDataSector_le ..)]
      obtain ha | ha := mem_append.mp ha
      · exact h.zeroed a ha j hj
      · refine absurd ⟨j, by rwa [hspc], ?_⟩ hin
        rw [hsector, mem_singleton.mp ha]
  · have hnotIn : ¬ ∃ i < v1.sectorsPerCluster, fatClusterToSector v1 c + i = s := by
      rintro ⟨i, hi, heq⟩
      rw [hspc] at hi
      rw [hsector] at heq
      exact hout c (mem_append_right _ (mem_singleton_self _)) i hi heq
    rw [disk_zeroCluster, if_neg hnotIn, halloc.same.disk s (by rwa [hfds]),
      h.disk s hs fun a ha => hout a (mem_append_left _ ha)]

/-- What an extension that failed leaves: the chain and every entry beside it as they were. Data of
free clusters may have been cleared. -/
structure Unwound (v : Volume) (first : Nat) (cs : List Nat) (v' : Volume) : Prop where
  geometry : v'.toGeometry = v.toGeometry
  chain : v'.IsChain first cs
  entry : ∀ c, c ∉ cs → v'.entry c = v.entry c
  sized : v.Sized → v'.Sized
  disk : ∀ s, v.firstDataSector ≤ s →
    (∀ c, v.IsDataCluster c → v.entry c = 0 →
      ∀ j < v.sectorsPerCluster, fatClusterToSector v c + j ≠ s) →
    v'.disk s = v.disk s

theorem Grown.sized (h : Grown v cs fresh v') (hsized : v.Sized) : v'.Sized := by
  intro s hs
  rw [h.geometry] at hs
  by_cases hin : ∃ c ∈ fresh, ∃ j < v.sectorsPerCluster, fatClusterToSector v c + j = s
  · obtain ⟨c, hc, j, hj, rfl⟩ := hin
    rw [h.zeroed c hc j hj]
    exact length_replicate
  · rw [h.disk s hs fun c hc j hj heq => hin ⟨c, hc, j, hj, heq⟩]
    exact hsized s hs

def firstOf (first : Nat) (cs fresh : List Nat) : Nat := if cs = [] then fresh.headD 0 else first

theorem Grown.unwind (h : Grown v cs fresh v') (hcs : v.IsChain first cs)
    (hchain : v'.IsChain (firstOf first cs fresh) (cs ++ fresh)) :
    Unwound v first cs (unwindExtension v' (cs.getLastD 0) (fresh.headD 0)) := by
  have hdisk : ∀ v'', SameData v' v'' → ∀ s, v.firstDataSector ≤ s →
      (∀ c, v.IsDataCluster c → v.entry c = 0 →
        ∀ j < v.sectorsPerCluster, fatClusterToSector v c + j ≠ s) →
      v''.disk s = v.disk s := by
    intro v'' hsame s hs hout
    rw [hsame.disk s (by rwa [h.geometry]), h.disk s hs fun c hc => hout c (h.data c hc) (h.free c hc)]
  rw [unwindExtension]
  cases fresh with
  | nil =>
    rw [if_neg (by simp)]
    rw [append_nil] at hchain
    refine ⟨h.geometry, ?_, fun c hc => h.entry c hc not_mem_nil, h.sized, hdisk v' (.refl v')⟩
    have hfirst : firstOf first cs [] = first := by
      rw [firstOf]
      split
      case isTrue hnil =>
        rw [hnil] at hcs
        exact hcs.first_eq.symm
      case isFalse => rfl
    rwa [hfirst] at hchain
  | cons a fresh =>
    have ha : a ≠ 0 := by
      have hdata := h.data a (mem_cons_self ..)
      have := hdata.1
      omega
    have hapart : ∀ c ∈ cs, c ∉ a :: fresh := fun c hc hc' =>
      (nodup_append.mp hchain.linked.nodup).2.2 c hc c hc' rfl
    have htail := hchain.drop cs.length
    rw [drop_left, getD_append_right _ _ _ _ (Nat.le_refl _), Nat.sub_self] at htail
    rw [headD_cons, if_pos ha]
    obtain ⟨hsame, hentry⟩ := htail.free
    rw [getD_cons_zero] at hsame hentry
    by_cases hnil : cs = []
    · subst hnil
      rw [getLastD_nil]
      simp only [ne_eq, not_true_eq_false, if_false]
      have hfirst : first = 0 := hcs.first_eq
      subst hfirst
      refine ⟨hsame.geometry.trans h.geometry, ⟨.nil, nofun, nofun⟩, fun c _ => ?_,
        fun hsized => hsame.sized (h.sized hsized), hdisk _ hsame⟩
      rw [hentry]
      split
      case isTrue hc => exact (h.free c hc).symm
      case isFalse hc => exact h.entry c not_mem_nil hc
    · have hlastMem : cs.getLastD 0 ∈ cs := by
        rw [getLastD_eq_getLast?, getLast?_eq_getLast_of_ne_nil hnil]
        exact getLast_mem hnil
      have hlastData := hcs.data _ hlastMem
      have hlastNe : cs.getLastD 0 ≠ 0 := by
        have := hlastData.1
        omega
      simp only [if_pos hlastNe]
      have hlastData' : (fatFreeChain v' a).IsDataCluster (cs.getLastD 0) :=
        (isDataCluster_congr (hsame.geometry.trans h.geometry)).mpr hlastData
      have hsame' := hsame.trans (sameData_fatSetFatEntry hlastData' fatEntryMask)
      have hset : ∀ c, (fatSetFatEntry (fatFreeChain v' a) (cs.getLastD 0) fatEntryMask).entry c =
          if c = cs.getLastD 0 then fatEntryMask
          else if c ∈ a :: fresh then 0 else v'.entry c := fun c => by
        rw [entry_fatSetFatEntry, hentry]
        rfl
      refine ⟨hsame'.geometry.trans h.geometry, ?_, fun c hc => ?_,
        fun hsized => hsame'.sized (h.sized hsized), hdisk _ hsame'⟩
      · have hfront := hchain.front hsame'.geometry fun c hc => by
          rw [hset, if_neg (hapart c hc)]
        rwa [if_neg hnil, firstOf, if_neg hnil] at hfront
      · rw [hset, if_neg (show ¬ c = cs.getLastD 0 from fun heq => hc (heq ▸ hlastMem))]
        split
        case isTrue hmem => exact (h.free c hmem).symm
        case isFalse hmem => exact h.entry c hc hmem

/-- The extension loop of `FatSetFileSize`, from any point of it: it adds the clusters it is still
asked for, or takes back all it added. -/
theorem extendLoop_spec {cancelled : Nat → Bool} {rounds i : Nat} {done : List Nat} {v1 : Volume}
    {result : Except NtStatus Nat} (hlimit : v.WithinLimit) (hcs : v.IsChain first cs)
    (hgrown : Grown v cs done v1) (hchain : v1.IsChain (firstOf first cs done) (cs ++ done))
    (hloop : extendLoop cancelled (cs.getLastD 0) rounds i ((cs ++ done).getLastD 0) (done.headD 0) v1 =
      (result, v')) :
    (∃ fresh, result = .ok (fresh.headD 0) ∧ fresh.length = done.length + rounds ∧
      Grown v cs fresh v' ∧ v'.IsChain (firstOf first cs fresh) (cs ++ fresh)) ∨
    (∃ status, result = .error status ∧ Unwound v first cs v') := by
  induction rounds generalizing done v1 i with
  | zero =>
    cases hloop
    exact .inl ⟨done, rfl, rfl, hgrown, hchain⟩
  | succ rounds ih =>
    rw [extendLoop] at hloop
    split at hloop
    · cases hloop
      exact .inr ⟨_, rfl, hgrown.unwind hcs hchain⟩
    · cases halloc : fatAllocateCluster v1 ((cs ++ done).getLastD 0) with
      | none =>
        rw [halloc] at hloop
        cases hloop
        exact .inr ⟨_, rfl, hgrown.unwind hcs hchain⟩
      | some allocated =>
        obtain ⟨c, v2⟩ := allocated
        rw [halloc] at hloop
        simp only at hloop
        have hlimit' : v1.WithinLimit := by
          rw [Volume.WithinLimit, hgrown.geometry]
          exact hlimit
        have hlast : (cs ++ done).getLastD 0 ≠ 0 → (cs ++ done).getLastD 0 ∈ cs ++ done := by
          intro hne
          cases hlast? : (cs ++ done).getLast? with
          | none =>
            rw [getLastD_eq_getLast?, hlast?] at hne
            exact absurd rfl hne
          | some a =>
            rw [getLastD_eq_getLast?, hlast?]
            exact mem_of_getLast? hlast?
        have hallocated := fatAllocateCluster_some hlimit' (fun hne => hchain.data _ (hlast hne)) halloc
        have hgrown' := hgrown.concat hchain hlast hallocated
        have hhead : (if done.headD 0 = 0 then c else done.headD 0) = (done ++ [c]).headD 0 := by
          cases done with
          | nil => rfl
          | cons a done =>
            have hdata := hgrown.data a (mem_cons_self ..)
            have := hdata.1
            rw [headD_cons, if_neg (by omega), cons_append, headD_cons]
        have hchain' : (zeroCluster v2 c).IsChain (firstOf first cs (done ++ [c]))
            (cs ++ (done ++ [c])) := by
          have hgrow := hallocated.grow hlimit' hchain rfl
          have hfirst : (if cs ++ done = [] then c else firstOf first cs done) =
              firstOf first cs (done ++ [c]) := by
            rw [firstOf, firstOf]
            by_cases hnil : cs = []
            · rw [if_pos hnil, if_pos hnil, ← hhead, hnil, nil_append]
              cases done with
              | nil => rfl
              | cons a done =>
                have hdata := hgrown.data a (mem_cons_self ..)
                have := hdata.1
                rw [if_neg (by simp), headD_cons, if_neg (by omega)]
            · rw [if_neg (by simp [hnil]), if_neg hnil, if_neg hnil]
          rw [hfirst, append_assoc] at hgrow
          exact hgrow.congr rfl fun _ _ => rfl
        rw [hhead] at hloop
        have hlast' : (cs ++ (done ++ [c])).getLastD 0 = c := by
          rw [← append_assoc, getLastD_concat]
        obtain ⟨fresh, hresult, hlength, hspec⟩ | hfailed := ih hgrown' hchain' (by
          rw [hlast']
          exact hloop)
        · refine .inl ⟨fresh, hresult, ?_, hspec⟩
          rw [hlength, length_append, length_singleton]
          omega
        · exact .inr hfailed

/-! ## The chain for a new size -/

/-- A chain `cs` became `cs'`: one starts with the other, clusters that are new were free and are zeroed,
clusters that are gone are free, and nothing else of the FAT or of the data is different. -/
structure Resized (v : Volume) (cs cs' : List Nat) (v' : Volume) : Prop where
  geometry : v'.toGeometry = v.toGeometry
  nested : cs <+: cs' ∨ cs' <+: cs
  fresh : ∀ c ∈ cs', c ∉ cs → v.IsDataCluster c ∧ v.entry c = 0
  freed : ∀ c ∈ cs, c ∉ cs' → v'.entry c = 0
  entry : ∀ c, c ∉ cs → c ∉ cs' → v'.entry c = v.entry c
  zeroed : ∀ c ∈ cs', c ∉ cs → ∀ j < v.sectorsPerCluster,
    v'.disk (fatClusterToSector v c + j) = List.replicate fatSectorSize 0
  disk : ∀ s, v.firstDataSector ≤ s →
    (∀ c ∈ cs', c ∉ cs → ∀ j < v.sectorsPerCluster, fatClusterToSector v c + j ≠ s) →
    v'.disk s = v.disk s

theorem Grown.resized (h : Grown v cs fresh v') (hcs : v.IsChain first cs) :
    Resized v cs (cs ++ fresh) v' := by
  have hnew : ∀ c ∈ cs ++ fresh, c ∉ cs → c ∈ fresh := fun c hc hnot =>
    (mem_append.mp hc).resolve_left hnot
  refine ⟨h.geometry, .inl (prefix_append ..), fun c hc hnot => ?_, fun c hc hnot => ?_,
    fun c hc hnot => ?_, fun c hc hnot => h.zeroed c (hnew c hc hnot), fun s hs hout => ?_⟩
  · exact ⟨h.data c (hnew c hc hnot), h.free c (hnew c hc hnot)⟩
  · exact absurd (mem_append_left _ hc) hnot
  · exact h.entry c hc fun hmem => hnot (mem_append_right _ hmem)
  · refine h.disk s hs fun c hc => ?_
    exact hout c (mem_append_right _ hc) fun hmem => hcs.used c hmem (h.free c hc)

theorem Resized.refl (v : Volume) (cs : List Nat) : Resized v cs cs v :=
  ⟨rfl, .inl (prefix_refl cs), fun _ hc hnot => absurd hc hnot, fun _ hc hnot => absurd hc hnot,
    fun _ _ _ => rfl, fun _ hc hnot => absurd hc hnot, fun _ _ _ => rfl⟩

/-- `FatSetFileSize` gives the chain the length that the new size needs, or leaves it. -/
theorem resizeChain_spec {cancelled : Nat → Bool} {newSize : Nat} {result : Except NtStatus Nat}
    (hlimit : v.WithinLimit) (h : v.IsChain first cs)
    (hresize : resizeChain cancelled v first newSize = (result, v')) :
    (∃ first' cs', result = .ok first' ∧ cs'.length = clustersOf v newSize ∧ v'.IsChain first' cs' ∧
      Resized v cs cs' v') ∨ (∃ status, result = .error status ∧ Unwound v first cs v') := by
  rw [resizeChain, h.length] at hresize
  simp only at hresize
  split at hresize
  case isTrue hgrow =>
    have hlast : (if cs.length ≠ 0 then fatWalkChain v first (cs.length - 1) else 0) =
        cs.getLastD 0 := by
      split
      case isTrue hne =>
        rw [h.walk, getD_eq_getElem?_getD, ← getLast?_eq_getElem?, getLastD_eq_getLast?]
      case isFalse hzero =>
        rw [length_eq_zero_iff.mp (not_not.mp hzero)]
        rfl
    rw [hlast] at hresize
    cases hloop : extendLoop cancelled (cs.getLastD 0) (clustersOf v newSize - cs.length) cs.length
        (cs.getLastD 0) 0 v with
    | mk looped v1 =>
      have hstart : v.IsChain (firstOf first cs []) (cs ++ []) := by
        rw [append_nil, firstOf]
        split
        case isTrue hnil =>
          rw [hnil] at h ⊢
          exact ⟨.nil, nofun, nofun⟩
        case isFalse => exact h
      have hspec := extendLoop_spec hlimit h (Grown.nil v cs) hstart
        (show extendLoop cancelled (cs.getLastD 0) (clustersOf v newSize - cs.length) cs.length
          ((cs ++ []).getLastD 0) 0 v = (looped, v1) by rw [append_nil]; exact hloop)
      rw [hloop] at hresize
      obtain ⟨fresh, rfl, hlength, hgrown, hchain⟩ | ⟨status, rfl, hunwound⟩ := hspec
      · cases hresize
        refine .inl ⟨_, cs ++ fresh, rfl, ?_, ?_, hgrown.resized h⟩
        · rw [length_append, hlength, length_nil]
          omega
        · have hfirst : (if first = 0 then fresh.headD 0 else first) = firstOf first cs fresh := by
            rw [firstOf]
            cases cs with
            | nil => rw [if_pos rfl, if_pos (show first = 0 from h.first_eq)]
            | cons c cs =>
              obtain ⟨rfl, _⟩ := h.tail
              have hdata := h.data first (mem_cons_self ..)
              have := hdata.1
              rw [if_neg (by omega), if_neg (by simp)]
          rwa [hfirst]
      · cases hresize
        exact .inr ⟨status, rfl, hunwound⟩
  case isFalse hle =>
    split at hresize
    case isTrue hcut =>
      cases hresize
      obtain ⟨hsame, hchain, hentry⟩ := h.cut hcut
      refine .inl ⟨_, _, rfl, ?_, hchain, ⟨hsame.geometry, .inr (List.take_prefix ..), ?_, ?_, ?_, ?_, ?_⟩⟩
      · rw [length_take]
        omega
      · exact fun c hc hnot => absurd (mem_of_mem_take hc) hnot
      · intro c hc hnot
        rw [hentry c hnot, if_pos]
        rw [← take_append_drop (clustersOf v newSize) cs] at hc
        exact (mem_append.mp hc).resolve_left hnot
      · intro c hc hnot
        rw [hentry c hnot, if_neg fun hmem => hc (mem_of_mem_drop hmem)]
      · exact fun c hc hnot => absurd (mem_of_mem_take hc) hnot
      · exact fun s hs _ => hsame.disk s hs
    case isFalse hge =>
      cases hresize
      exact .inl ⟨first, cs, rfl, by omega, h, .refl v cs⟩

theorem Resized.sized (h : Resized v cs cs' v') (hsized : v.Sized) : v'.Sized := by
  intro s hs
  rw [h.geometry] at hs
  by_cases hin : ∃ c ∈ cs', c ∉ cs ∧ ∃ j < v.sectorsPerCluster, fatClusterToSector v c + j = s
  · obtain ⟨c, hc, hnot, j, hj, rfl⟩ := hin
    rw [h.zeroed c hc hnot j hj]
    exact length_replicate
  · rw [h.disk s hs fun c hc hnot j hj heq => hin ⟨c, hc, hnot, j, hj, heq⟩]
    exact hsized s hs

theorem Resized.keep {ds : List Nat} {dir : Nat} (h : Resized v cs cs' v') (hchain : v.IsChain dir ds)
    (hapart : ∀ c ∈ ds, c ∉ cs) : v'.IsChain dir ds ∧ ∀ c ∈ ds, c ∉ cs' := by
  have hnew : ∀ c ∈ ds, c ∉ cs' := fun c hc hmem =>
    hchain.used c hc (h.fresh c hmem (hapart c hc)).2
  exact ⟨hchain.congr h.geometry fun c hc => h.entry c (hapart c hc) (hnew c hc), hnew⟩

end

end Proskrnl.Fat
