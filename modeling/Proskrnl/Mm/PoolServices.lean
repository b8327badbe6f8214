import Proskrnl.Mm.PoolInsert

/-!
# The services of the pool

What `MiAllocatePool` and `MiFreePool` make of a tiling. The heap grows by whole pages, and where the frames
run out before a page is taken, what was taken so far is a free block; only a page whose tables or whose
shadow cannot be had stops the kernel.
-/

namespace Proskrnl.Mm.Pool

open Outcome WordMemory Tilings List

variable {s s' : Heap} {t a x y z v n needed : Nat} {l : Option Nat} {p q blocks : List Block}

structure Sound (s : Heap) (blocks : List Block) : Prop where
  holds : Holds s blocks
  apart : Apart blocks
  inUse : s.bytesInUse = liveBytes miPoolBase blocks
  pages : s.poolEnd % pageSize = 0
  shadow : s.shadowMapped % pageSize = 0

theorem firstFit_ok (needed : Nat) (h : Laid s 0 a p) (hp : Sized p) (ha : 0 < a) (hlink : s.link l = first 0 a p)
    (fuel : Nat) (hfuel : total p < fuel) :
    (∃ before size after, p = before ++ ⟨size, false⟩ :: after ∧ needed ≤ size ∧
        firstFit s needed fuel l = .ok (some ((lastFree a before).or l, a + total before))) ∨
      ((∀ b ∈ p, b.live = false → b.size < needed) ∧ firstFit s needed fuel l = .ok none) := by
  induction p generalizing a l fuel with
  | nil =>
    obtain ⟨fuel, rfl⟩ := Nat.exists_eq_add_one_of_ne_zero (Nat.ne_of_gt hfuel)
    rw [first] at hlink
    right
    refine ⟨by simp, ?_⟩
    rw [firstFit, hlink, if_pos rfl]
  | cons b p ih =>
    obtain ⟨size, live⟩ := b
    obtain ⟨hsize, hmagic, hnext, hrest⟩ := h
    obtain ⟨hb, htail⟩ := sized_cons.mp hp
    rw [total] at hfuel
    simp only at hsize hmagic hnext hrest hb hfuel
    rw [first] at hlink
    cases live with
    | true =>
      obtain ⟨before, size', after, rfl, hfits, hfound⟩ | ⟨hnone, hfound⟩ :=
        ih hrest htail (by omega) hlink fuel (by omega)
      · left
        refine ⟨⟨size, true⟩ :: before, size', after, rfl, hfits, ?_⟩
        rw [lastFree, if_pos rfl, Option.or_none, total, ← Nat.add_assoc]
        exact hfound
      · right
        refine ⟨forall_mem_cons.mpr ⟨?_, hnone⟩, hfound⟩
        simp
    | false =>
      rw [if_neg Bool.false_ne_true] at hlink
      have hnext : s.link (some a) = first 0 (a + size) p := hnext rfl
      have hsize : s.size a = size := hsize
      have hmagic : s.magic a = miPoolFreeMagic := hmagic
      obtain ⟨fuel, rfl⟩ := Nat.exists_eq_add_one_of_ne_zero (Nat.ne_of_gt (Nat.zero_lt_of_lt hfuel))
      simp only [firstFit, hlink, hsize, hmagic, if_neg (Nat.ne_of_gt ha), ne_eq, not_true_eq_false, if_false]
      split
      case isTrue hfits => exact .inl ⟨[], size, p, rfl, hfits, rfl⟩
      case isFalse hsmall =>
        obtain ⟨before, size', after, rfl, hfits, hfound⟩ | ⟨hnone, hfound⟩ :=
          ih hrest htail (by omega) hnext fuel (by omega)
        · left
          refine ⟨⟨size, false⟩ :: before, size', after, rfl, hfits, ?_⟩
          rw [lastFree, if_neg Bool.false_ne_true, total, ← Nat.add_assoc, Option.or_assoc]
          exact hfound
        · right
          refine ⟨forall_mem_cons.mpr ⟨fun _ => ?_, hnone⟩, hfound⟩
          simp only
          omega

theorem header_writeRest (needed : Nat) (hclear : Clear x y) (hsize : s.size x - needed < 2 ^ 64) :
    (writeRest s x y needed).header y = ⟨s.size x - needed, miPoolFreeMagic, s.nextFree x⟩ ∧
      ∀ w, Clear w y → (writeRest s x y needed).header w = s.header w := by
  have hnext : ((s.setSize y (s.size x - needed)).setMagic y miPoolFreeMagic).nextFree x = s.nextFree x := by
    change Header.nextFree (Heap.header _ x) = _
    rw [header_setMagic hclear, header_setSize hclear]
    rfl
  rw [writeRest, hnext]
  constructor
  · have hlink : s.nextFree x < 2 ^ 64 := word_lt ..
    rw [header_setNextFree_self hlink, header_setMagic_self (by decide), header_setSize_self hsize]
  · intro w hw
    rw [header_setNextFree hw, header_setMagic hw, header_setSize hw]

structure FreeBlock (s : Heap) (p : List Block) (z : Nat) (q : List Block) : Prop where
  before : Laid s (miPoolBase + total p) miPoolBase p
  freeList : s.freeList = first (miPoolBase + total p) miPoolBase p
  size : s.size (miPoolBase + total p) = z
  next : s.nextFree (miPoolBase + total p) = first 0 (miPoolBase + total p + z) q
  after : Laid s 0 (miPoolBase + total p + z) q
  sizedBefore : Sized p
  block : 32 ≤ z ∧ z % 16 = 0
  sizedAfter : Sized q
  poolEnd : s.poolEnd = miPoolBase + total p + z + total q
  bound : s.poolEnd < 2 ^ 64

theorem Holds.freeBlock (h : Holds s (p ++ ⟨z, false⟩ :: q)) : FreeBlock s p z q := by
  obtain ⟨hp, hsize, -, hnext, hq⟩ := laid_append.mp h.laid
  obtain ⟨hpSized, hsized⟩ := sized_append.mp h.sized
  obtain ⟨hblock, hqSized⟩ := sized_cons.mp hsized
  refine ⟨hp, ?_, hsize, hnext rfl, hq, hpSized, hblock, hqSized, ?_, h.bound⟩
  · rw [h.freeList, first_append]
    rfl
  · rw [h.poolEnd, total_append, total]
    simp only
    omega

theorem FreeBlock.unlink (h : FreeBlock s p z q) (ht : t < 2 ^ 64) :
    Laid (s.setLink t (lastFree miPoolBase p)) t miPoolBase p ∧
      (s.setLink t (lastFree miPoolBase p)).freeList = first t miPoolBase p ∧
      ∀ x, miPoolBase + total p ≤ x → (s.setLink t (lastFree miPoolBase p)).header x = s.header x :=
  h.before.redirect h.sizedBefore h.freeList t ht

theorem FreeBlock.next_lt (h : FreeBlock s p z q) : first 0 (miPoolBase + total p + z) q < 2 ^ 64 := by
  rw [← h.next]
  exact word_lt ..

theorem FreeBlock.whole (h : FreeBlock s p z q) :
    Holds ((s.setLink (s.nextFree (miPoolBase + total p)) (lastFree miPoolBase p)).setMagic
      (miPoolBase + total p) miPoolAllocatedMagic) (p ++ ⟨z, true⟩ :: q) := by
  obtain ⟨hp, hfreeList, hothers⟩ := h.unlink (h.next ▸ h.next_lt)
  have hsize : (s.header (miPoolBase + total p)).size = z := h.size
  obtain ⟨hz, -⟩ := h.block
  have hend := h.poolEnd
  rw [h.next] at hp hfreeList hothers ⊢
  generalize hx : miPoolBase + total p = x at *
  have hself : ((s.setLink (first 0 (x + z) q) (lastFree miPoolBase p)).setMagic x
      miPoolAllocatedMagic).header x = ⟨z, miPoolAllocatedMagic, (s.header x).nextFree⟩ := by
    rw [header_setMagic_self (by decide), hothers x (Nat.le_refl x), hsize]
  have honly : OnlyBlocks s (s.setLink (first 0 (x + z) q) (lastFree miPoolBase p)) := onlyBlocks_setLink
  generalize s.setLink (first 0 (x + z) q) (lastFree miPoolBase p) = s1 at *
  have hend' : (s1.setMagic x miPoolAllocatedMagic).poolEnd = s.poolEnd := honly.poolEnd
  refine ⟨laid_append.mpr ⟨?_, ?_⟩, ?_, ?_, ?_, ?_⟩
  · rw [hx, first, if_pos rfl]
    apply hp.congr h.sizedBefore
    intro y _ hhigh
    exact header_setMagic (.inl (by omega))
  · rw [hx, Laid, hself]
    refine ⟨rfl, rfl, by simp, ?_⟩
    rw [← hx]
    apply h.after.congr h.sizedAfter
    intro y hlow _
    rw [header_setMagic (.inr (by omega)), hothers y (by omega)]
  · rw [first_append, hx, first, if_pos rfl]
    exact hfreeList
  · exact sized_append.mpr ⟨h.sizedBefore, sized_cons.mpr ⟨h.block, h.sizedAfter⟩⟩
  · rw [hend', hend, total_append, total]
    simp only
    omega
  · rw [hend']
    exact h.bound

theorem FreeBlock.split (h : FreeBlock s p z q) (hlow : 32 ≤ needed) (hmod : needed % 16 = 0)
    (hrest : 32 ≤ z - needed) :
    Holds ((((writeRest s (miPoolBase + total p) (miPoolBase + total p + needed) needed).setLink
      (miPoolBase + total p + needed) (lastFree miPoolBase p)).setSize (miPoolBase + total p) needed).setMagic
        (miPoolBase + total p) miPoolAllocatedMagic)
      (p ++ ⟨needed, true⟩ :: ⟨z - needed, false⟩ :: q) := by
  have hsize := h.size
  have hend := h.poolEnd
  have hbound := h.bound
  obtain ⟨hz, hzmod⟩ := h.block
  generalize hx : miPoolBase + total p = x at *
  have hbefore := h.before
  have hfreeList := h.freeList
  rw [hx] at hbefore hfreeList
  obtain ⟨hself, hclear⟩ := header_writeRest (s := s) needed (x := x) (y := x + needed)
    (.inl (by omega)) (by omega)
  have honly : OnlyBlocks s (writeRest s x (x + needed) needed) := ⟨rfl, rfl, rfl, rfl⟩
  have hnext : s.nextFree x = first 0 (x + z) q := hx ▸ h.next
  rw [hsize, hnext] at hself
  have hfreeList1 : (writeRest s x (x + needed) needed).freeList = first x miPoolBase p := hfreeList
  generalize writeRest s x (x + needed) needed = s1 at *
  have hp1 : Laid s1 x miPoolBase p := by
    apply hbefore.congr h.sizedBefore
    intro y _ hhigh
    exact hclear y (.inl (by omega))
  obtain ⟨hp2, hfreeList2, hothers⟩ := hp1.redirect h.sizedBefore hfreeList1 (x + needed) (by omega)
  rw [hx] at hothers
  have honly2 := honly.trans (onlyBlocks_setLink (v := x + needed) (l := lastFree miPoolBase p))
  generalize s1.setLink (x + needed) (lastFree miPoolBase p) = s2 at *
  have hblock : ((s2.setSize x needed).setMagic x miPoolAllocatedMagic).header x =
      ⟨needed, miPoolAllocatedMagic, (s.header x).nextFree⟩ := by
    rw [header_setMagic_self (by decide), header_setSize_self (by omega), hothers x (Nat.le_refl x),
      hclear x (.inl (by omega))]
  have hclear2 : ∀ y, Clear y x →
      ((s2.setSize x needed).setMagic x miPoolAllocatedMagic).header y = s2.header y := by
    intro y hy
    rw [header_setMagic hy, header_setSize hy]
  have hend' : ((s2.setSize x needed).setMagic x miPoolAllocatedMagic).poolEnd = s.poolEnd := honly2.poolEnd
  have hfreeList3 : ((s2.setSize x needed).setMagic x miPoolAllocatedMagic).freeList = s2.freeList := rfl
  generalize (s2.setSize x needed).setMagic x miPoolAllocatedMagic = s3 at *
  have hback : x + needed + (z - needed) = x + z := by omega
  refine ⟨laid_append.mpr ⟨?_, ?_⟩, ?_, ?_, ?_, ?_⟩
  · rw [hx]
    apply hp2.congr h.sizedBefore
    intro y _ hhigh
    exact hclear2 y (.inl (by omega))
  · rw [hx, Laid, hblock]
    refine ⟨rfl, rfl, by simp, ?_⟩
    rw [Laid, hclear2 _ (.inr (by simp only; omega)), hothers _ (Nat.le_add_right ..), hself, hback]
    refine ⟨rfl, rfl, fun _ => rfl, ?_⟩
    rw [← hx]
    apply h.after.congr h.sizedAfter
    intro y hy _
    rw [hclear2 y (.inr (by omega)), hothers y (by omega), hclear y (.inr (by omega))]
  · rw [first_append, hx, hfreeList3]
    exact hfreeList2
  · refine sized_append.mpr ⟨h.sizedBefore, sized_cons.mpr ⟨⟨hlow, hmod⟩, sized_cons.mpr ⟨?_, h.sizedAfter⟩⟩⟩
    simp only
    omega
  · rw [hend', hend, total_append, total, total]
    simp only
    omega
  · rw [hend']
    exact hbound

theorem unlinkBlock_holds (h : Holds s (p ++ ⟨z, false⟩ :: q)) (hapart : Apart (p ++ ⟨z, false⟩ :: q))
    (hlow : 32 ≤ needed) (hmod : needed % 16 = 0) (hfits : needed ≤ z) :
    ∃ y rest, Holds ((unlinkBlock s (lastFree miPoolBase p) (miPoolBase + total p) needed).setMagic
        (miPoolBase + total p) miPoolAllocatedMagic) (p ++ ⟨y, true⟩ :: rest) ∧
      OnlyBlocks s (unlinkBlock s (lastFree miPoolBase p) (miPoolBase + total p) needed) ∧
      Apart (p ++ ⟨y, true⟩ :: rest) ∧ needed ≤ y ∧ y + total rest = z + total q ∧
      liveAt (miPoolBase + total p + y) rest = liveAt (miPoolBase + total p + z) q := by
  have hfree := h.freeBlock
  obtain ⟨hfront, hback, -⟩ := isChain_append.mp hapart
  -- the block is live: whatever is behind it, its neighbours are not both free
  have hlive : ∀ y rest, Apart rest → Apart (p ++ ⟨y, true⟩ :: rest) := by
    intro y rest hrest
    refine isChain_append.mpr ⟨hfront, isChain_cons.mpr ⟨fun _ _ => .inl rfl, hrest⟩, ?_⟩
    intro c _ d hd
    cases hd
    exact .inr rfl
  have hend := hfree.poolEnd
  have hbound := hfree.bound
  by_cases hrest : miPoolMinSplit ≤ z - needed
  · have hunlink : unlinkBlock s (lastFree miPoolBase p) (miPoolBase + total p) needed =
        ((writeRest s (miPoolBase + total p) (miPoolBase + total p + needed) needed).setLink
          (miPoolBase + total p + needed) (lastFree miPoolBase p)).setSize (miPoolBase + total p) needed := by
      rw [unlinkBlock, hfree.size, if_pos hrest, Nat.mod_eq_of_lt (by omega)]
    have honly : OnlyBlocks s (writeRest s (miPoolBase + total p) (miPoolBase + total p + needed) needed) :=
      ⟨rfl, rfl, rfl, rfl⟩
    have honly' := honly.trans
      (onlyBlocks_setLink (v := miPoolBase + total p + needed) (l := lastFree miPoolBase p))
    rw [hunlink]
    refine ⟨needed, ⟨z - needed, false⟩ :: q, hfree.split hlow hmod hrest,
      ⟨honly'.poolEnd, honly'.bytesInUse, honly'.shadowMapped, honly'.paging⟩, ?_, Nat.le_refl needed, ?_, ?_⟩
    · apply hlive
      exact isChain_cons.mpr ⟨(isChain_cons.mp hback).1, (isChain_cons.mp hback).2⟩
    · rw [total]
      simp only
      omega
    · rw [liveAt, if_neg Bool.false_ne_true]
      congr 1
      simp only
      omega
  · have hunlink : unlinkBlock s (lastFree miPoolBase p) (miPoolBase + total p) needed =
        s.setLink (s.nextFree (miPoolBase + total p)) (lastFree miPoolBase p) := by
      rw [unlinkBlock, hfree.size, if_neg hrest]
    rw [hunlink]
    exact ⟨z, q, hfree.whole, onlyBlocks_setLink, hlive z q (isChain_cons.mp hback).2, hfits, rfl, rfl⟩

theorem Holds.body (h : Holds s (p ++ ⟨y, true⟩ :: q)) {m : Memory}
    (hm : ∀ i, i < miPoolBase + total p + 16 ∨ miPoolBase + total p + y ≤ i → m i = s.memory i) :
    Holds { s with memory := m } (p ++ ⟨y, true⟩ :: q) := by
  obtain ⟨hp, hsize, hmagic, -, hq⟩ := laid_append.mp h.laid
  obtain ⟨hpSized, hsized⟩ := sized_append.mp h.sized
  obtain ⟨⟨hy, -⟩, hqSized⟩ := sized_cons.mp hsized
  simp only at hy
  generalize hx : miPoolBase + total p = x at *
  have hword : ∀ w, w + 8 ≤ x + 16 ∨ x + y ≤ w → word m w = word s.memory w := by
    intro w hw
    apply word_congr
    intro i hlow hhigh
    apply hm
    omega
  have hheader : ∀ w, w + 24 ≤ x + 16 ∨ x + y ≤ w →
      ({ s with memory := m } : Heap).header w = s.header w := by
    intro w hw
    rw [Heap.header, Heap.header, Heap.size, Heap.magic, Heap.nextFree, hword w (by omega),
      hword (w + 8) (by omega), hword (w + 16) (by omega)]
    rfl
  refine ⟨laid_append.mpr ⟨?_, ?_⟩, h.freeList, h.sized, h.poolEnd, h.bound⟩
  · rw [hx]
    apply hp.congr hpSized
    intro w _ hhigh
    exact hheader w (by omega)
  · rw [hx]
    refine ⟨(hword x (by omega)).trans hsize, (hword (x + 8) (by omega)).trans hmagic, by simp, ?_⟩
    apply hq.congr hqSized
    intro w hlow _
    exact hheader w (.inr hlow)

/-- A live block is added to the tiling, behind those of `front`. -/
structure Handed (blocks blocks' : List Block) (front back : List (Nat × Nat)) (address size : Nat) :
    Prop where
  before : liveAt miPoolBase blocks = front ++ back
  after : liveAt miPoolBase blocks' = front ++ (address, size) :: back

theorem handOut_gives (h : Sound s (p ++ ⟨z, false⟩ :: q)) (hlow : 32 ≤ needed) (hmod : needed % 16 = 0)
    (hfits : needed ≤ z) (hn : n + 16 ≤ needed) :
    Gives (handOut s (lastFree miPoolBase p) (miPoolBase + total p) needed n) fun result =>
      result.1 = miPoolBase + total p + 16 ∧ (∀ i < n, result.2.memory (result.1 + i) = 0) ∧
      result.2.poolEnd = s.poolEnd ∧ ∃ size blocks' front back, Sound result.2 blocks' ∧ n + 16 ≤ size ∧
        Handed (p ++ ⟨z, false⟩ :: q) blocks' front back (miPoolBase + total p) size := by
  obtain ⟨y, rest, hholds, honly, hapart, hy, htotal, hlive⟩ :=
    unlinkBlock_holds h.holds h.apart hlow hmod hfits
  have hend : s.poolEnd = miPoolBase + total p + z + total q := h.holds.freeBlock.poolEnd
  have hbound := h.holds.bound
  have hinUse := h.inUse
  have hbytes : liveBytes miPoolBase (p ++ ⟨z, false⟩ :: q) + y =
      liveBytes miPoolBase (p ++ ⟨y, true⟩ :: rest) := by
    rw [liveBytes, liveBytes, liveAt_free, liveAt_live, hlive, map_append, map_append, map_cons,
      sum_append, sum_append, sum_cons]
    omega
  have hle := liveBytes_le (a := miPoolBase) (p := p ++ ⟨y, true⟩ :: rest)
  rw [total_append, total] at hle
  simp only at hle
  rw [handOut]
  generalize unlinkBlock s (lastFree miPoolBase p) (miPoolBase + total p) needed = s1 at *
  have hsize : (s1.setMagic (miPoolBase + total p) miPoolAllocatedMagic).size (miPoolBase + total p) = y :=
    (laid_append.mp hholds.laid).2.1
  have hend1 : (s1.setMagic (miPoolBase + total p) miPoolAllocatedMagic).poolEnd = s.poolEnd := honly.poolEnd
  have hinUse1 : (s1.setMagic (miPoolBase + total p) miPoolAllocatedMagic).bytesInUse = s.bytesInUse :=
    honly.bytesInUse
  have hshadow1 : (s1.setMagic (miPoolBase + total p) miPoolAllocatedMagic).shadowMapped = s.shadowMapped :=
    honly.shadowMapped
  generalize s1.setMagic (miPoolBase + total p) miPoolAllocatedMagic = s2 at *
  have hdata : (miPoolBase + total p + miPoolAlign) % 2 ^ 64 = miPoolBase + total p + 16 := by
    rw [miPoolAlign, Nat.mod_eq_of_lt (by omega)]
  have hcount : (s2.bytesInUse + y) % 2 ^ 64 = liveBytes miPoolBase (p ++ ⟨y, true⟩ :: rest) := by
    rw [hinUse1, hinUse, hbytes, Nat.mod_eq_of_lt (by omega)]
  simp only [hsize, hdata]
  rw [if_neg (by omega)]
  refine .ok ⟨rfl, ?_, hend1, y, p ++ ⟨y, true⟩ :: rest, liveAt miPoolBase p,
    liveAt (miPoolBase + total p + z) q, ⟨?_, hapart, hcount, ?_, ?_⟩, by omega, liveAt_free .., ?_⟩
  · intro i hi
    exact fill_inside (Nat.le_add_right ..) (Nat.add_lt_add_left hi _)
  · have hbody := hholds.body (m := fill s2.memory (miPoolBase + total p + 16) n 0) (by
      intro i hi
      apply fill_outside
      omega)
    exact ⟨hbody.laid.congr hbody.sized fun _ _ _ => rfl, hbody.freeList, hbody.sized, hbody.poolEnd,
      hbody.bound⟩
  · exact (congrArg (· % pageSize) hend1).trans h.pages
  · exact (congrArg (· % pageSize) hshadow1).trans h.shadow
  · rw [liveAt_live, hlive]

/-- `MiFreePool` of a live block takes the block, and nothing else, from the live ones. -/
theorem miFreePool_gives (h : Sound s blocks) (hx : (x, z) ∈ liveAt miPoolBase blocks) :
    Gives (miFreePool s (x + 16)) fun s' => s'.poolEnd = s.poolEnd ∧
      ∃ blocks' front back, Sound s' blocks' ∧ Handed blocks' blocks front back x z := by
  obtain ⟨p, q, rfl, rfl⟩ := exists_of_mem_liveAt hx
  obtain ⟨hp, hsize, hmagic, -, hq⟩ := laid_append.mp h.holds.laid
  obtain ⟨hpSized, hsized⟩ := sized_append.mp h.holds.sized
  obtain ⟨hblock, hqSized⟩ := sized_cons.mp hsized
  obtain ⟨hfront, hback, -⟩ := isChain_append.mp h.apart
  obtain ⟨-, -, hbound⟩ := Holds.block (.inl h.holds)
  have hsize : s.size (miPoolBase + total p) = z := hsize
  have hmagic : s.magic (miPoolBase + total p) = miPoolAllocatedMagic := hmagic
  have hend : s.poolEnd = miPoolBase + total p + z + total q := by
    rw [h.holds.poolEnd, total_append, total]
    simp only
    omega
  have hbytes : s.bytesInUse = liveBytes miPoolBase p + z + liveBytes (miPoolBase + total p + z) q := by
    rw [h.inUse, liveBytes, liveAt_live, map_append, map_cons, sum_append, sum_cons,
      ← Nat.add_assoc]
    rfl
  have hpointer : (miPoolBase + total p + 16 + 2 ^ 64 - miPoolAlign) % 2 ^ 64 = miPoolBase + total p := by
    rw [miPoolAlign]
    omega
  rw [miFreePool, if_neg (by omega), hpointer]
  simp only [hmagic, hsize, ne_eq, not_true_eq_false, if_false]
  rw [if_neg (by omega)]
  have hloose : Loose { s with bytesInUse := s.bytesInUse - z } p z q := by
    refine ⟨?_, hsize, hq.congr hqSized fun _ _ _ => rfl, ?_, hpSized, hblock, hqSized, hend, h.holds.bound⟩
    · exact hp.congr hpSized fun _ _ _ => rfl
    · change s.freeList = _
      rw [h.holds.freeList, first_append, first]
      rfl
  apply (miInsertFreeBlock_ends hloose hfront (isChain_cons.mp hback).2).mono
  rintro s' ⟨honly, blocks', hholds, hapart, -, -, hlive⟩
  refine ⟨honly.poolEnd, blocks', _, _, ⟨hholds, hapart, ?_, ?_, ?_⟩, hlive, liveAt_live ..⟩
  · rw [honly.bytesInUse, liveBytes, hlive, map_append, sum_append]
    change s.bytesInUse - z = liveBytes miPoolBase p + liveBytes (miPoolBase + total p + z) q
    omega
  · exact (congrArg (· % pageSize) honly.poolEnd).trans h.pages
  · exact (congrArg (· % pageSize) honly.shadowMapped).trans h.shadow

end Proskrnl.Mm.Pool
