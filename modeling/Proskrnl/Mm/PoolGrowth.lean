import Proskrnl.Mm.PoolServices

/-!
# Growth of the heap

`MiExpandPool` maps page after page while there are frames. A page needs more than its own frame: the page
tables on the way to it, and with them the page of the shadow that covers it. Where these can be had for
each page that has a frame, the heap grows without a panic, and what it grew by is free.
-/

namespace Proskrnl.Mm.Pool

open Outcome WordMemory Tilings

variable {s s' : Heap} {t a x y z v n needed : Nat} {l : Option Nat} {p q blocks : List Block}

/-- The pages of the shadow from `a` on. -/
def shadowPages (shadowEnd a : Nat) : List Nat :=
  if a < shadowEnd then a :: shadowPages shadowEnd (a + pageSize) else []
termination_by shadowEnd - a
decreasing_by
  have hpage : 0 < pageSize := Nat.succ_pos _
  omega

/-- What is mapped for one more page of the heap: the page, and the shadow up to it. -/
def pagesFor (s : Heap) : List Nat :=
  s.poolEnd :: shadowPages (miKasanShadowFor (s.poolEnd + pageSize)) s.shadowMapped

def grown (s : Heap) : Heap :=
  { s with
    poolEnd := s.poolEnd + pageSize
    shadowMapped := s.shadowMapped +
      pageSize * (shadowPages (miKasanShadowFor (s.poolEnd + pageSize)) s.shadowMapped).length
    paging := s.paging.placeAll (pagesFor s) }

/-- For each of the next pages that has a frame there is room for all that it needs. -/
def Backed : Nat → Heap → Prop
  | 0, _ => True
  | pages + 1, s =>
    s.paging.frames = 0 ∨
      (s.poolEnd + pageSize < 2 ^ 64 ∧ s.paging.Room (pagesFor s) ∧ Backed pages (grown s))

theorem miAllocatePage_of_ne {frames : Nat} (h : frames ≠ 0) : miAllocatePage frames = some (frames - 1) :=
  if_neg h

theorem coverShadow_ok {shadowEnd : Nat} {pages : List Nat} (hpages : pages = shadowPages shadowEnd s.shadowMapped)
    (haligned : s.shadowMapped % pageSize = 0) (hroom : s.paging.Room pages) :
    coverShadow shadowEnd s = .ok { s with
      paging := s.paging.placeAll pages
      shadowMapped := s.shadowMapped + pageSize * pages.length } := by
  induction pages generalizing s with
  | nil =>
    rw [shadowPages] at hpages
    split at hpages
    case isTrue => cases hpages
    case isFalse hend =>
      rw [coverShadow, if_neg hend]
      rfl
  | cons a pages ih =>
    rw [shadowPages] at hpages
    split at hpages
    case isFalse => cases hpages
    case isTrue hlt =>
      obtain ⟨rfl, hrest⟩ := List.cons.inj hpages
      obtain ⟨hframes, hopen, hmissing, hroom⟩ := hroom
      have hnext : (s.shadowMapped + pageSize) % pageSize = 0 := by rw [Nat.add_mod_right, haligned]
      have hmapped : miMapPage { s.paging with frames := s.paging.frames - 1 } s.shadowMapped =
          .ok (s.paging.takeFrame.place s.shadowMapped) := miMapPage_ok haligned hopen hmissing
      have hloop := ih (s := { s with
        paging := s.paging.takeFrame.place s.shadowMapped
        shadowMapped := s.shadowMapped + pageSize }) hrest hnext hroom
      have hlength : s.shadowMapped + pageSize * (pages.length + 1) =
          s.shadowMapped + pageSize + pageSize * pages.length := by
        rw [Nat.mul_add_one, Nat.add_comm (pageSize * _), Nat.add_assoc]
      rw [coverShadow, if_pos hlt, miAllocatePage_of_ne hframes, List.length_cons, hlength]
      simp only [hmapped, hloop]
      rfl

structure Growth (pages : Nat) (s : Heap) (mapped : Nat) (s' : Heap) : Prop where
  le : mapped ≤ pages
  stopped : mapped = pages ∨ s'.paging.frames = 0
  memory : s'.memory = s.memory
  freeList : s'.freeList = s.freeList
  bytesInUse : s'.bytesInUse = s.bytesInUse
  poolEnd : s'.poolEnd = s.poolEnd + mapped * pageSize
  bound : s'.poolEnd < 2 ^ 64
  shadow : s'.shadowMapped % pageSize = 0

theorem expandPages_gives {pages : Nat} (hbacked : Backed pages s) (hend : s.poolEnd % pageSize = 0)
    (hbound : s.poolEnd < 2 ^ 64) (hshadow : s.shadowMapped % pageSize = 0) :
    Gives (expandPages pages s) fun result => Growth pages s result.1 result.2 := by
  induction pages generalizing s with
  | zero =>
    have hsame : s.poolEnd = s.poolEnd + 0 * pageSize := by rw [Nat.zero_mul, Nat.add_zero]
    exact .ok ⟨Nat.le_refl 0, .inl rfl, rfl, rfl, rfl, hsame, hbound, hshadow⟩
  | succ pages ih =>
    rw [expandPages]
    by_cases hframes : s.paging.frames = 0
    · have hnone : miAllocatePage s.paging.frames = none := if_pos hframes
      rw [hnone]
      have hsame : s.poolEnd = s.poolEnd + 0 * pageSize := by rw [Nat.zero_mul, Nat.add_zero]
      exact .ok ⟨Nat.zero_le _, .inr hframes, rfl, rfl, rfl, hsame, hbound, hshadow⟩
    · rw [Backed] at hbacked
      obtain ⟨hlt, hpages, hrest⟩ := hbacked.resolve_left hframes
      rw [pagesFor, Paging.Room] at hpages
      obtain ⟨-, hopen, hmissing, hroom⟩ := hpages
      have hmapped : miMapPage { s.paging with frames := s.paging.frames - 1 } s.poolEnd =
          .ok (s.paging.takeFrame.place s.poolEnd) := miMapPage_ok hend hopen hmissing
      have hmod : (s.poolEnd + pageSize) % 2 ^ 64 = s.poolEnd + pageSize := Nat.mod_eq_of_lt hlt
      have hcover : miKasanCoverPool { s with
          paging := s.paging.takeFrame.place s.poolEnd
          poolEnd := (s.poolEnd + pageSize) % 2 ^ 64 } ((s.poolEnd + pageSize) % 2 ^ 64) = .ok (grown s) := by
        rw [hmod, miKasanCoverPool, coverShadow_ok (s := { s with
          paging := s.paging.takeFrame.place s.poolEnd
          poolEnd := s.poolEnd + pageSize }) rfl hshadow hroom, grown, pagesFor, Paging.placeAll_cons]
      have hend' : (grown s).poolEnd % pageSize = 0 := by
        rw [grown, Nat.add_mod_right, hend]
      have hshadow' : (grown s).shadowMapped % pageSize = 0 := by
        rw [grown, Nat.add_mul_mod_self_left, hshadow]
      obtain ⟨⟨mapped, s'⟩, hloop, hgrowth⟩ := ih hrest hend' hlt hshadow'
      have hpoolEnd : s'.poolEnd = s.poolEnd + (mapped + 1) * pageSize := by
        rw [hgrowth.poolEnd, grown, Nat.add_mul, Nat.one_mul, Nat.add_assoc, Nat.add_comm pageSize]
      have hgrowth' : Growth (pages + 1) s (mapped + 1) s' :=
        ⟨Nat.succ_le_succ hgrowth.le, hgrowth.stopped.imp (congrArg (· + 1)) id, hgrowth.memory,
          hgrowth.freeList, hgrowth.bytesInUse, hpoolEnd, hgrowth.bound, hgrowth.shadow⟩
      refine ⟨(mapped + 1, s'), ?_, hgrowth'⟩
      rw [miAllocatePage_of_ne hframes]
      simp only [hmapped]
      rw [ok_bind, hcover, ok_bind, hloop, ok_bind]

/-- The pages that are asked for hold what is needed, unless the sum of the two wraps. -/
theorem le_pagesNeeded (hne : pagesNeeded needed ≠ 0) (hneeded : needed < 2 ^ 64) :
    needed ≤ pagesNeeded needed * pageSize := by
  rw [pagesNeeded, pageSize] at *
  omega

theorem lt_of_pagesNeeded_eq_zero (hzero : pagesNeeded needed = 0) (hpositive : 0 < needed) :
    2 ^ 64 - pageSize < needed := by
  rw [pagesNeeded, pageSize] at *
  omega

theorem Growth.loose {pages mapped : Nat} (hgrowth : Growth pages s mapped s') (h : Holds s blocks)
    (hmapped : mapped ≠ 0) :
    miPoolBase + total blocks = s.poolEnd ∧
      Loose (s'.setSize s.poolEnd (mapped * pageSize % 2 ^ 64)) blocks (mapped * pageSize) [] := by
  have hend := h.poolEnd
  have hend' := hgrowth.poolEnd
  have hbound := hgrowth.bound
  have hpage : 32 ≤ mapped * pageSize := by
    rw [pageSize]
    omega
  have hmod : mapped * pageSize % 2 ^ 64 = mapped * pageSize := Nat.mod_eq_of_lt (by omega)
  have hheader : ∀ x, s'.header x = s.header x := by
    intro x
    rw [Heap.header, Heap.header, Heap.size, Heap.magic, Heap.nextFree, hgrowth.memory]
    rfl
  refine ⟨hend.symm, ?_, ?_, trivial, ?_, h.sized, ⟨hpage, ?_⟩, by rintro _ ⟨⟩, ?_, hbound⟩
  · apply h.laid.congr h.sized
    intro x _ hhigh
    rw [header_setSize (.inl (by omega)), hheader]
  · rw [← hend, hmod, header_setSize_self (by omega)]
  · exact hgrowth.freeList.trans h.freeList
  · rw [pageSize]
    omega
  · rw [← hend]
    exact hend'

/-- `MiExpandPool` keeps the tiling; what it adds is free, and where it says that the heap grew enough there
is a block that is large enough. -/
theorem miExpandPool_gives (h : Sound s blocks) (hbacked : Backed (pagesNeeded needed) s)
    (hpositive : 0 < needed) (hneeded : needed < 2 ^ 64) :
    Gives (miExpandPool s needed) fun result => s.poolEnd ≤ result.2.poolEnd ∧
      ∃ blocks', Sound result.2 blocks' ∧ liveAt miPoolBase blocks' = liveAt miPoolBase blocks ∧
        (result.1 = true → ∃ b ∈ blocks', b.live = false ∧ needed ≤ b.size) ∧
        (result.1 = false → result.2.paging.frames = 0 ∨ 2 ^ 64 - pageSize < needed) := by
  obtain ⟨⟨mapped, s'⟩, hloop, hgrowth⟩ :=
    expandPages_gives hbacked h.pages h.holds.bound h.shadow
  have hgrowth : Growth (pagesNeeded needed) s mapped s' := hgrowth
  have hend := hgrowth.poolEnd
  have hpages : s'.poolEnd % pageSize = 0 := by rw [hend, Nat.add_mul_mod_self_right, h.pages]
  rw [miExpandPool, hloop, ok_bind]
  by_cases hmapped : mapped = 0
  · -- nothing was mapped
    rw [hmapped, Nat.zero_mul, Nat.add_zero] at hend
    have hheader : ∀ x, s'.header x = s.header x := by
      intro x
      rw [Heap.header, Heap.header, Heap.size, Heap.magic, Heap.nextFree, hgrowth.memory]
      rfl
    have hholds : Holds s' blocks :=
      ⟨h.holds.laid.congr h.holds.sized fun x _ _ => hheader x, hgrowth.freeList.trans h.holds.freeList,
        h.holds.sized, hend.trans h.holds.poolEnd, hgrowth.bound⟩
    have hsound : Sound s' blocks :=
      ⟨hholds, h.apart, hgrowth.bytesInUse.trans h.inUse, hpages, hgrowth.shadow⟩
    have hstopped : s'.paging.frames = 0 ∨ 2 ^ 64 - pageSize < needed := by
      obtain hall | hframes := hgrowth.stopped
      · exact .inr (lt_of_pagesNeeded_eq_zero (hall ▸ hmapped) hpositive)
      · exact .inl hframes
    refine ⟨(false, s'), if_pos hmapped, Nat.le_of_eq hend.symm, blocks, hsound, rfl, ?_, fun _ => hstopped⟩
    simp
  · obtain ⟨htotal, hloose⟩ := hgrowth.loose h.holds hmapped
    obtain ⟨s'', hinsert, honly, blocks', hholds, hapart, ⟨b, hb, hfree, hsize⟩, -, hlive⟩ :=
      miInsertFreeBlock_ends hloose h.apart .nil
    rw [htotal] at hinsert
    rw [liveAt, List.append_nil] at hlive
    have hend'' : s''.poolEnd = s'.poolEnd := honly.poolEnd
    have hsound : Sound s'' blocks' := by
      refine ⟨hholds, hapart, ?_, ?_, ?_⟩
      · rw [liveBytes, hlive, honly.bytesInUse]
        exact hgrowth.bytesInUse.trans h.inUse
      · rw [hend'']
        exact hpages
      · rw [honly.shadowMapped]
        exact hgrowth.shadow
    refine ⟨(mapped == pagesNeeded needed, s''), ?_, ?_, blocks', hsound, hlive, ?_, ?_⟩
    · refine (if_neg hmapped).trans ?_
      rw [hinsert, ok_bind]
    · change s.poolEnd ≤ s''.poolEnd
      omega
    · intro hall
      have hall := beq_iff_eq.mp hall
      have hle := le_pagesNeeded (hall ▸ hmapped) hneeded
      rw [← hall] at hle
      exact ⟨b, hb, hfree, Nat.le_trans hle hsize⟩
    · intro hpart
      have hne : mapped ≠ pagesNeeded needed := by simpa using hpart
      left
      change s''.paging.frames = 0
      rw [honly.paging]
      exact hgrowth.stopped.resolve_left hne

end Proskrnl.Mm.Pool
