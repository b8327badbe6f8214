import Proskrnl.Mm.PoolLayout

/-!
# Inserting a free block

`MiInsertFreeBlock` puts a block between the free blocks before and behind it and coalesces it with its
neighbours. Every address keeps its place in the tiling, and no two free blocks are neighbours afterwards.
-/

namespace Proskrnl.Mm.Pool

open Outcome WordMemory Tilings List

variable {s s' s'' : Heap} {t a x z z' v : Nat} {l : Option Nat} {p q : List Block}

structure OnlyBlocks (s s' : Heap) : Prop where
  poolEnd : s'.poolEnd = s.poolEnd
  bytesInUse : s'.bytesInUse = s.bytesInUse
  shadowMapped : s'.shadowMapped = s.shadowMapped
  paging : s'.paging = s.paging

theorem OnlyBlocks.refl : OnlyBlocks s s := ⟨rfl, rfl, rfl, rfl⟩

theorem OnlyBlocks.trans (h : OnlyBlocks s s') (h' : OnlyBlocks s' s'') : OnlyBlocks s s'' :=
  ⟨h'.poolEnd.trans h.poolEnd, h'.bytesInUse.trans h.bytesInUse, h'.shadowMapped.trans h.shadowMapped,
    h'.paging.trans h.paging⟩

theorem onlyBlocks_setLink : OnlyBlocks s (s.setLink v l) := by
  cases l with
  | none => exact ⟨rfl, rfl, rfl, rfl⟩
  | some block => exact ⟨rfl, rfl, rfl, rfl⟩

theorem onlyBlocks_absorb : OnlyBlocks s (absorb s a x) := ⟨rfl, rfl, rfl, rfl⟩

theorem Holds.block (h : Holds s (p ++ ⟨z, true⟩ :: q) ∨ Holds s (p ++ ⟨z, false⟩ :: q)) :
    32 ≤ z ∧ z % 16 = 0 ∧ miPoolBase + total p + z + total q < 2 ^ 64 := by
  have hblock : ∀ live, Holds s (p ++ ⟨z, live⟩ :: q) →
      32 ≤ z ∧ z % 16 = 0 ∧ miPoolBase + total p + z + total q < 2 ^ 64 := by
    intro live h
    obtain ⟨hz, hmod⟩ := h.sized _ (mem_append_right _ mem_cons_self)
    have hend := h.poolEnd
    have hbound := h.bound
    rw [total_append, total] at hend
    simp only at hz hmod hend
    exact ⟨hz, hmod, by omega⟩
  obtain h | h := h
  · exact hblock _ h
  · exact hblock _ h

theorem absorb_holds (h : Holds s (p ++ ⟨z, false⟩ :: ⟨z', false⟩ :: q)) :
    Holds (absorb s (miPoolBase + total p) (miPoolBase + total p + z)) (p ++ ⟨z + z', false⟩ :: q) := by
  obtain ⟨hp, hsize, hmagic, -, hsize', -, hnext', hq⟩ := laid_append.mp h.laid
  obtain ⟨hpSized, hsized⟩ := sized_append.mp h.sized
  obtain ⟨⟨hz, hmod⟩, hsized⟩ := sized_cons.mp hsized
  obtain ⟨⟨hz', hmod'⟩, hqSized⟩ := sized_cons.mp hsized
  have hend := h.poolEnd
  have hbound := h.bound
  have hfreeList := h.freeList
  rw [total_append, total, total] at hend
  rw [first_append, first] at hfreeList
  rw [first] at hp
  simp only at hsize hsize' hnext' hq hz hmod hz' hmod' hend
  generalize hx : miPoolBase + total p = x at *
  have hrange : first 0 (x + z + z') q < 2 ^ 64 := by
    have hfirst := first_bounds 0 hqSized.le (a := x + z + z')
    omega
  have hsum : (s.size x + s.size (x + z)) % 2 ^ 64 = z + z' := by
    change ((s.header x).size + (s.header (x + z)).size) % 2 ^ 64 = _
    rw [hsize, hsize', Nat.mod_eq_of_lt (by omega)]
  have hclear : Clear (x + z) x := .inr (by omega)
  have hnextFree : (s.setSize x (z + z')).nextFree (x + z) = first 0 (x + z + z') q := by
    change ((s.setSize x (z + z')).header (x + z)).nextFree = _
    rw [header_setSize hclear]
    exact hnext' trivial
  -- the header of the block, and those that are clear of it and of the other
  have hself : (absorb s x (x + z)).header x = ⟨z + z', miPoolFreeMagic, first 0 (x + z + z') q⟩ := by
    rw [absorb, hsum, hnextFree, header_setMagic (.inl (by omega)), header_setNextFree_self hrange,
      header_setSize_self (by omega)]
    simp only [hmagic]
    rfl
  have hothers : ∀ y, Clear y x → Clear y (x + z) → (absorb s x (x + z)).header y = s.header y := by
    intro y hy hy'
    rw [absorb, header_setMagic hy', header_setNextFree hy, header_setSize hy]
  refine ⟨laid_append.mpr ⟨?_, ?_⟩, ?_, ?_, ?_, hbound⟩
  · rw [hx, first]
    apply hp.congr hpSized
    intro y _ hhigh
    exact hothers y (.inl (by omega)) (.inl (by omega))
  · rw [hx, Laid, hself]
    refine ⟨rfl, rfl, fun _ => by rw [Nat.add_assoc], ?_⟩
    rw [← Nat.add_assoc]
    apply hq.congr hqSized
    intro y hlow _
    exact hothers y (.inr (by omega)) (.inr (by omega))
  · rw [first_append, hx, first]
    exact hfreeList
  · apply sized_append.mpr ⟨hpSized, sized_cons.mpr ⟨?_, hqSized⟩⟩
    simp only
    omega
  · rw [total_append, total]
    change s.poolEnd = _
    simp only
    omega

theorem apart_free {b : Block} (hz : Apart (b :: q)) (hb : b.live = true) (z : Nat) :
    Apart (⟨z, false⟩ :: b :: q) := isChain_cons_cons.mpr ⟨.inr hb, hz⟩

theorem coalesceForward_holds (h : Holds s (p ++ ⟨z, false⟩ :: q)) (hq : Apart q) :
    ∃ z' q', Holds (coalesceForward s (miPoolBase + total p)) (p ++ ⟨z', false⟩ :: q') ∧
      OnlyBlocks s (coalesceForward s (miPoolBase + total p)) ∧ Apart (⟨z', false⟩ :: q') ∧ z ≤ z' ∧
      z' + total q' = z + total q ∧
      liveAt (miPoolBase + total p + z') q' = liveAt (miPoolBase + total p + z) q := by
  obtain ⟨-, hsize, -, hnext, -⟩ := laid_append.mp h.laid
  have hsized := (sized_cons.mp (sized_append.mp h.sized).2).2
  obtain ⟨hz, -, hbound⟩ := Holds.block (.inr h)
  have hnext : s.nextFree (miPoolBase + total p) = first 0 (miPoolBase + total p + z) q := hnext rfl
  have hsize : s.size (miPoolBase + total p) = z := hsize
  have hmod : (miPoolBase + total p + z) % 2 ^ 64 = miPoolBase + total p + z := Nat.mod_eq_of_lt (by omega)
  rw [coalesceForward, hnext, hsize, hmod]
  cases q with
  | nil =>
    rw [first, if_neg fun hboth => hboth.1 rfl]
    exact ⟨z, [], h, .refl, .singleton _, Nat.le_refl z, rfl, rfl⟩
  | cons b q =>
    obtain ⟨y, _ | _⟩ := b
    · -- the neighbour is free
      rw [first, if_neg Bool.false_ne_true, if_pos ⟨by omega, rfl⟩]
      refine ⟨z + y, q, absorb_holds h, onlyBlocks_absorb, ?_, Nat.le_add_right z y, ?_, ?_⟩
      · cases q with
        | nil => exact .singleton _
        | cons c q =>
          obtain ⟨hc, hq⟩ := isChain_cons_cons.mp hq
          exact apart_free hq (hc.resolve_left Bool.false_ne_true) _
      · rw [total]
        simp only
        omega
      · rw [liveAt, if_neg Bool.false_ne_true, ← Nat.add_assoc]
    · -- the neighbour is live, and the next free block lies behind it
      have hfirst := first_bounds 0 (sized_cons.mp hsized).2.le (a := miPoolBase + total p + z + y)
      have hy : 32 ≤ y := (sized_cons.mp hsized).1.1
      rw [first, if_pos rfl, if_neg]
      · exact ⟨z, ⟨y, true⟩ :: q, h, .refl, apart_free hq rfl z, Nat.le_refl z, rfl, rfl⟩
      · rintro ⟨hne, heq⟩
        simp only at heq hne
        omega

theorem coalesceBackward_holds (h : Holds s (p ++ ⟨z, false⟩ :: q)) (hp : Apart p)
    (hq : Apart (⟨z, false⟩ :: q)) :
    ∃ blocks, Holds (coalesceBackward s (lastFree miPoolBase p) (miPoolBase + total p)) blocks ∧
      OnlyBlocks s (coalesceBackward s (lastFree miPoolBase p) (miPoolBase + total p)) ∧ Apart blocks ∧
      (∃ b ∈ blocks, b.live = false ∧ z ≤ b.size) ∧ total blocks = total p + z + total q ∧
      liveAt miPoolBase blocks = liveAt miPoolBase p ++ liveAt (miPoolBase + total p + z) q := by
  obtain ⟨hz, -, hbound⟩ := Holds.block (.inr h)
  have hkeep : Apart (p ++ ⟨z, false⟩ :: q) →
      ∃ blocks, Holds s blocks ∧ OnlyBlocks s s ∧ Apart blocks ∧
        (∃ b ∈ blocks, b.live = false ∧ z ≤ b.size) ∧ total blocks = total p + z + total q ∧
        liveAt miPoolBase blocks = liveAt miPoolBase p ++ liveAt (miPoolBase + total p + z) q := by
    intro hapart
    have hmem : (⟨z, false⟩ : Block) ∈ p ++ ⟨z, false⟩ :: q := mem_append_right _ mem_cons_self
    refine ⟨_, h, .refl, hapart, ⟨_, hmem, rfl, Nat.le_refl z⟩, ?_, liveAt_free ..⟩
    rw [total_append, total, Nat.add_assoc]
  obtain rfl | ⟨front, b, rfl⟩ := eq_nil_or_concat p
  · exact hkeep hq
  · rw [concat_eq_append] at *
    obtain ⟨y, _ | _⟩ := b
    · -- the block before is free: it is the one the link is in
      have hlast : lastFree miPoolBase (front ++ [⟨y, false⟩]) = some (miPoolBase + total front) := by
        rw [lastFree_append]
        rfl
      obtain ⟨-, hsize, -⟩ := laid_append.mp (laid_append.mp h.laid).1
      have hsize : s.size (miPoolBase + total front) = y := hsize
      have htotal : miPoolBase + total (front ++ [⟨y, false⟩]) = miPoolBase + total front + y := by
        rw [total_append, ← Nat.add_assoc]
        rfl
      rw [htotal] at hbound
      rw [append_assoc] at h
      rw [hlast, coalesceBackward, htotal, hsize, if_pos (Nat.mod_eq_of_lt (by omega))]
      have hmem : (⟨y + z, false⟩ : Block) ∈ front ++ ⟨y + z, false⟩ :: q :=
        mem_append_right _ mem_cons_self
      refine ⟨front ++ ⟨y + z, false⟩ :: q, absorb_holds h, onlyBlocks_absorb, ?_,
        ⟨_, hmem, rfl, Nat.le_add_left z y⟩, ?_, ?_⟩
      · obtain ⟨hfront, -, hseam⟩ := isChain_append.mp hp
        refine isChain_append.mpr ⟨hfront, isChain_cons.mpr ?_, ?_⟩
        · exact isChain_cons.mp hq
        · intro c hc d hd
          cases hd
          exact hseam c hc ⟨y, false⟩ rfl
      · rw [total_append, total, total_append]
        simp only [total]
        omega
      · rw [liveAt_free, liveAt_append, ← Nat.add_assoc]
        change _ = liveAt miPoolBase front ++ [] ++ _
        rw [append_nil]
    · -- the block before is live, and the link is in a free block before it
      have hapart : Apart (front ++ [⟨y, true⟩] ++ ⟨z, false⟩ :: q) := by
        refine isChain_append.mpr ⟨hp, hq, ?_⟩
        intro c hc d _
        rw [getLast?_append] at hc
        cases hc
        exact .inl rfl
      have hlast : lastFree miPoolBase (front ++ [⟨y, true⟩]) = lastFree miPoolBase front := by
        rw [lastFree_append]
        rfl
      rw [hlast]
      cases hfront : lastFree miPoolBase front with
      | none => exact hkeep hapart
      | some w =>
        obtain ⟨before, size, after, rfl, rfl, -⟩ := lastFree_eq_some hfront
        obtain ⟨-, hsize, -⟩ := laid_append.mp (laid_append.mp (laid_append.mp h.laid).1).1
        have hsize : s.size (miPoolBase + total before) = size := hsize
        have hy := (sized_append.mp (sized_append.mp h.sized).1).2
        have hy : 32 ≤ y := (sized_cons.mp hy).1.1
        rw [coalesceBackward, hsize, if_neg]
        · exact hkeep hapart
        · rw [total_append, total_append, total, total] at hbound ⊢
          simp only [total] at hbound ⊢
          intro heq
          rw [Nat.mod_eq_of_lt (by omega)] at heq
          omega

theorem findLink_ok {block : Nat} (h : Laid s t a p) (hp : Sized p) (ha : 0 < a) (hblock : a + total p ≤ block)
    (ht : ¬ (t ≠ 0 ∧ t < block)) (hlink : s.link l = first t a p) {fuel : Nat} (hfuel : total p < fuel) :
    findLink s block fuel l = .ok ((lastFree a p).or l) := by
  induction p generalizing a l fuel with
  | nil =>
    obtain ⟨fuel, rfl⟩ := Nat.exists_eq_add_one_of_ne_zero (Nat.ne_of_gt hfuel)
    rw [first] at hlink
    rw [findLink, hlink, if_neg ht]
    rfl
  | cons b p ih =>
    obtain ⟨-, -, hnext, hrest⟩ := h
    obtain ⟨hb, hp⟩ := sized_cons.mp hp
    rw [total] at hblock hfuel
    rw [lastFree, Option.or_assoc]
    rw [first] at hlink
    split at hlink
    case isTrue hlive =>
      rw [if_pos hlive]
      exact ih hrest hp (by omega) (by omega) hlink (by omega)
    case isFalse hfree =>
      rw [if_neg hfree]
      obtain ⟨fuel, rfl⟩ := Nat.exists_eq_add_one_of_ne_zero (Nat.ne_of_gt (Nat.zero_lt_of_lt hfuel))
      rw [findLink, hlink, if_pos (by omega)]
      have hlink' : s.link (some a) = first t (a + b.size) p :=
        hnext (Bool.eq_false_of_not_eq_true hfree)
      exact ih hrest hp (by omega) (by omega) hlink' (by omega)

structure Loose (s : Heap) (p : List Block) (z : Nat) (q : List Block) : Prop where
  before : Laid s (first 0 (miPoolBase + total p + z) q) miPoolBase p
  size : (s.header (miPoolBase + total p)).size = z
  after : Laid s 0 (miPoolBase + total p + z) q
  freeList : s.freeList = first (first 0 (miPoolBase + total p + z) q) miPoolBase p
  sizedBefore : Sized p
  block : 32 ≤ z ∧ z % 16 = 0
  sizedAfter : Sized q
  poolEnd : s.poolEnd = miPoolBase + total p + z + total q
  bound : s.poolEnd < 2 ^ 64

theorem Loose.linked (h : Loose s p z q) {s1 : Heap}
    (hs1 : s1 = s.setMagic (miPoolBase + total p) miPoolFreeMagic) :
    findLink s1 (miPoolBase + total p) (s1.poolEnd - miPoolBase + 1) none =
        .ok (lastFree miPoolBase p) ∧
      Holds ((s1.setNextFree (miPoolBase + total p) (s1.link (lastFree miPoolBase p))).setLink
        (miPoolBase + total p) (lastFree miPoolBase p)) (p ++ ⟨z, false⟩ :: q) := by
  obtain ⟨hbefore, hsize, hafter, hfreeList, hp, ⟨hz, hmod⟩, hq, hend, hbound⟩ := h
  have hfirst := first_bounds 0 hq.le (a := miPoolBase + total p + z)
  have hpositive : 0 < miPoolBase := Nat.succ_pos _
  generalize ht : first 0 (miPoolBase + total p + z) q = t at *
  have hbefore1 : Laid s1 t miPoolBase p := by
    rw [hs1]
    apply hbefore.congr hp
    intro y _ hhigh
    exact header_setMagic (.inl hhigh)
  have hfreeList1 : s1.freeList = first t miPoolBase p := by rw [hs1]; exact hfreeList
  have hend1 : s1.poolEnd = s.poolEnd := by rw [hs1]; rfl
  constructor
  · have hlink : s1.link none = first t miPoolBase p := hfreeList1
    rw [hend1, findLink_ok hbefore1 hp hpositive (Nat.le_refl _) (by omega) hlink (by omega), Option.or_none]
  · rw [link_lastFree hbefore1 hfreeList1]
    generalize hs2 : s1.setNextFree (miPoolBase + total p) t = s2
    have hbefore2 : Laid s2 t miPoolBase p := by
      rw [← hs2]
      apply hbefore1.congr hp
      intro y _ hhigh
      exact header_setNextFree (.inl hhigh)
    have hheader : s2.header (miPoolBase + total p) = ⟨z, miPoolFreeMagic, t⟩ := by
      rw [← hs2, header_setNextFree_self (by omega), hs1, header_setMagic_self (by decide)]
      simp only [hsize]
    have hafter2 : Laid s2 0 (miPoolBase + total p + z) q := by
      apply hafter.congr hq
      intro y hlow _
      rw [← hs2, header_setNextFree (.inr (by omega)), hs1, header_setMagic (.inr (by omega))]
    have hfreeList2 : s2.freeList = first t miPoolBase p := by rw [← hs2]; exact hfreeList1
    obtain ⟨hfront, hhead, hothers⟩ := hbefore2.redirect hp hfreeList2 (miPoolBase + total p) (by omega)
    have hend2 : (s2.setLink (miPoolBase + total p) (lastFree miPoolBase p)).poolEnd = s.poolEnd := by
      rw [onlyBlocks_setLink.poolEnd, ← hs2]
      exact hend1
    refine ⟨laid_append.mpr ⟨hfront, ?_⟩, ?_, ?_, ?_, hend2 ▸ hbound⟩
    · rw [Laid, hothers _ (Nat.le_refl _), hheader]
      refine ⟨rfl, rfl, fun _ => ht.symm, ?_⟩
      apply hafter2.congr hq
      intro y hlow _
      apply hothers
      omega
    · rw [first_append, first]
      exact hhead
    · exact sized_append.mpr ⟨hp, sized_cons.mpr ⟨⟨hz, hmod⟩, hq⟩⟩
    · rw [hend2, hend, total_append, total]
      simp only
      omega

/-- `MiInsertFreeBlock` puts a loose block on the free list; the live blocks stay where they are. -/
theorem miInsertFreeBlock_ends (h : Loose s p z q) (hp : Apart p) (hq : Apart q) :
    Gives (miInsertFreeBlock s (miPoolBase + total p)) fun s' =>
      OnlyBlocks s s' ∧ ∃ blocks, Holds s' blocks ∧ Apart blocks ∧
        (∃ b ∈ blocks, b.live = false ∧ z ≤ b.size) ∧ total blocks = total p + z + total q ∧
        liveAt miPoolBase blocks = liveAt miPoolBase p ++ liveAt (miPoolBase + total p + z) q := by
  have hsize : s.size (miPoolBase + total p) = z := h.size
  have hend := h.poolEnd
  have hbound := h.bound
  obtain ⟨hz, hmod⟩ := h.block
  have hblock : (miPoolBase + total p + z) % 2 ^ 64 ≤ s.poolEnd := by
    rw [Nat.mod_eq_of_lt (by omega)]
    omega
  generalize hs1 : s.setMagic (miPoolBase + total p) miPoolFreeMagic = s1
  obtain ⟨hfind, hholds⟩ := h.linked hs1.symm
  have hlegal : ¬ ¬ (miPoolMinSplit ≤ z ∧ z % miPoolAlign = 0) := not_not_intro ⟨hz, hmod⟩
  have hinside : ¬ ¬ (miPoolBase ≤ miPoolBase + total p ∧ (miPoolBase + total p + z) % 2 ^ 64 ≤ s.poolEnd) :=
    not_not_intro ⟨Nat.le_add_right .., hblock⟩
  rw [miInsertFreeBlock, hsize, if_neg hlegal, if_neg hinside]
  simp only [hs1, hfind]
  apply Gives.ok
  have honly : OnlyBlocks s ((s1.setNextFree (miPoolBase + total p)
      (s1.link (lastFree miPoolBase p))).setLink (miPoolBase + total p) (lastFree miPoolBase p)) := by
    apply OnlyBlocks.trans _ onlyBlocks_setLink
    rw [← hs1]
    exact ⟨rfl, rfl, rfl, rfl⟩
  obtain ⟨z', q', hforward, honly', hq', hz', htotal, hlive⟩ := coalesceForward_holds hholds hq
  obtain ⟨blocks, hbackward, honly'', hapart, ⟨b, hb, hfree, hsize'⟩, htotal', hlive'⟩ :=
    coalesceBackward_holds hforward hp hq'
  refine ⟨(honly.trans honly').trans honly'', blocks, hbackward, hapart,
    ⟨b, hb, hfree, Nat.le_trans hz' hsize'⟩, ?_, ?_⟩
  · rw [htotal']
    omega
  · rw [hlive', hlive]

end Proskrnl.Mm.Pool
