import Proskrnl.Mm.PoolGrowth

/-!
# Runs of the pool

Requests, frees, stores of the holders of blocks, and whatever the rest of the kernel does with frames and
page tables, in any order. The tiling survives every run in which no size is so large that its sum wraps
and in which the heap only grows by pages that can be had with their tables and their shadow.
-/

namespace Proskrnl.Mm.Pool

open Outcome WordMemory Tilings List

variable {s s' : Heap} {t a x y z n needed : Nat} {p q blocks blocks' : List Block}

theorem neededBytes_spec (hn : 0 < n) (hlarge : n ≤ 2 ^ 64 - 32) :
    32 ≤ neededBytes n ∧ neededBytes n % 16 = 0 ∧ n + 16 ≤ neededBytes n ∧ neededBytes n < 2 ^ 64 := by
  rw [neededBytes, miPoolAlign, miPoolMinSplit]
  omega

/-- A free block of the size, or room for the heap to grow by it. -/
def CanServe (s : Heap) (needed : Nat) : Prop :=
  (∃ blocks, Holds s blocks ∧ ∃ b ∈ blocks, b.live = false ∧ needed ≤ b.size) ∨
    Backed (pagesNeeded needed) s

def Described (s : Heap) (a : Nat) (b : Block) : Prop := s.size a = b.size ∧ s.magic a = magicOf b.live

theorem Laid.described (h : Laid s t a p) : Placed (Described s) a p := by
  induction p generalizing a with
  | nil => trivial
  | cons b p ih =>
    obtain ⟨hsize, hmagic, -, hrest⟩ := h
    exact ⟨⟨hsize, hmagic⟩, ih hrest⟩

theorem Described.unique {b c : Block} (h : Described s a b) (h' : Described s a c) : b = c := by
  have hlive : ∀ l l' : Bool, magicOf l = magicOf l' → l = l' := by decide
  obtain ⟨size, live⟩ := b
  obtain ⟨size', live'⟩ := c
  obtain rfl : size = size' := h.1.symm.trans h'.1
  obtain rfl : live = live' := hlive live live' (h.2.symm.trans h'.2)
  rfl

theorem described_unique (h : Placed (Described s) a p) (h' : Placed (Described s) a q) (hp : Sized p)
    (hq : Sized q) (htotal : total p = total q) : p = q := by
  induction p generalizing a q with
  | nil =>
    cases q with
    | nil => rfl
    | cons c q =>
      obtain ⟨hc, -⟩ := sized_cons.mp hq
      rw [total, total] at htotal
      omega
  | cons b p ih =>
    obtain ⟨hb, hp⟩ := sized_cons.mp hp
    cases q with
    | nil =>
      rw [total, total] at htotal
      omega
    | cons c q =>
      obtain ⟨hdescribed, hrest⟩ := h
      obtain ⟨hdescribed', hrest'⟩ := h'
      obtain ⟨hc, hq⟩ := sized_cons.mp hq
      have hblocks : b = c := hdescribed.unique hdescribed'
      rw [total, total] at htotal
      rw [← hblocks] at hrest' htotal ⊢
      rw [ih hrest hrest' hp hq (by omega)]

theorem Holds.unique (h : Holds s p) (h' : Holds s q) : p = q := by
  have hend := h.poolEnd
  have hend' := h'.poolEnd
  exact described_unique h.laid.described h'.laid.described h.sized h'.sized (by omega)

/-- What a request gets: a block of its own, or nothing, the frames being used up. -/
def Answer (blocks blocks' : List Block) (n : Nat) (result : Nat × Heap) : Prop :=
  (∃ address size front back, result.1 = address + 16 ∧ n + 16 ≤ size ∧
      Handed blocks blocks' front back address size ∧ ∀ i < n, result.2.memory (result.1 + i) = 0) ∨
    (result.1 = 0 ∧ liveAt miPoolBase blocks' = liveAt miPoolBase blocks ∧
      (result.2.paging.frames = 0 ∨ 2 ^ 64 - pageSize < neededBytes n))

theorem attempts_found {attempt : Nat} (h : Sound s blocks) (hn : 0 < n) (hlarge : n ≤ 2 ^ 64 - 32)
    (hfits : ∃ b ∈ blocks, b.live = false ∧ neededBytes n ≤ b.size) :
    Gives (attempts n (neededBytes n) (attempt + 1) s) fun result => s.poolEnd ≤ result.2.poolEnd ∧
      ∃ blocks', Sound result.2 blocks' ∧ Answer blocks blocks' n result := by
  obtain ⟨hlow, hmod, hroom, hbound⟩ := neededBytes_spec hn hlarge
  have hend := h.holds.poolEnd
  have hpositive : 0 < miPoolBase := Nat.succ_pos _
  obtain ⟨p, z, q, rfl, hle, hfound⟩ | ⟨hnone, -⟩ := firstFit_ok (l := none)
    (neededBytes n) h.holds.laid h.holds.sized hpositive h.holds.freeList (s.poolEnd - miPoolBase + 1) (by omega)
  · obtain ⟨result, hresult, hpointer, hzero, hend', size, blocks', front, back, hsound, hsize, hhanded⟩ :=
      handOut_gives h hlow hmod hle hroom
    rw [Option.or_none] at hfound
    refine ⟨result, ?_, Nat.le_of_eq hend'.symm, blocks', hsound,
      .inl ⟨_, size, front, back, hpointer, hsize, hhanded, hzero⟩⟩
    rw [attempts, hfound, ok_bind]
    exact hresult
  · obtain ⟨b, hb, hfree, hsize⟩ := hfits
    exact absurd hsize (Nat.not_le_of_lt (hnone b hb hfree))

theorem miAllocatePool_gives (h : Sound s blocks) (hn : 0 < n) (hlarge : n ≤ 2 ^ 64 - 32)
    (hserve : CanServe s (neededBytes n)) :
    Gives (miAllocatePool s n) fun result => s.poolEnd ≤ result.2.poolEnd ∧
      ∃ blocks', Sound result.2 blocks' ∧ Answer blocks blocks' n result := by
  obtain ⟨hlow, hmod, hroom, hbound⟩ := neededBytes_spec hn hlarge
  rw [miAllocatePool, if_neg (Nat.ne_of_gt hn)]
  by_cases hfits : ∃ b ∈ blocks, b.live = false ∧ neededBytes n ≤ b.size
  · exact attempts_found h hn hlarge hfits
  · -- the heap grows, and a second attempt finds what it grew by
    have hbacked : Backed (pagesNeeded (neededBytes n)) s := by
      refine hserve.resolve_left ?_
      rintro ⟨blocks', hholds, hserved⟩
      rw [← h.holds.unique hholds] at hserved
      exact hfits hserved
    have hend := h.holds.poolEnd
    have hpositive : 0 < miPoolBase := Nat.succ_pos _
    have hnone : firstFit s (neededBytes n) (s.poolEnd - miPoolBase + 1) none = .ok none := by
      obtain ⟨p, z, q, rfl, hle, -⟩ | ⟨-, hnone⟩ := firstFit_ok (l := none)
        (neededBytes n) h.holds.laid h.holds.sized hpositive h.holds.freeList (s.poolEnd - miPoolBase + 1) (by omega)
      · exact absurd ⟨⟨z, false⟩, mem_append_right _ mem_cons_self, rfl, hle⟩ hfits
      · exact hnone
    obtain ⟨⟨enough, s'⟩, hexpand, hle, blocks', hsound, hlive, hgrown, hstopped⟩ :=
      miExpandPool_gives h hbacked (by omega) hbound
    rw [attempts, hnone, ok_bind]
    simp only [hexpand]
    rw [ok_bind]
    cases enough with
    | false =>
      exact .ok ⟨hle, blocks', hsound, .inr ⟨rfl, hlive, hstopped rfl⟩⟩
    | true =>
      simp only [if_true]
      apply (attempts_found hsound hn hlarge (hgrown rfl)).mono
      rintro result ⟨hle', blocks'', hsound', houtcome⟩
      refine ⟨Nat.le_trans hle hle', blocks'', hsound', ?_⟩
      obtain ⟨address, size, front, back, hpointer, hsize, hhanded, hzero⟩ | ⟨hpointer, hlive', hstopped'⟩ :=
        houtcome
      · exact .inl ⟨address, size, front, back, hpointer, hsize,
          ⟨hlive.symm.trans hhanded.before, hhanded.after⟩, hzero⟩
      · exact .inr ⟨hpointer, hlive'.trans hlive, hstopped'⟩

/-- The pool and the blocks that are in the hands of its callers: their addresses, and the bytes that were
asked for. -/
structure Kernel where
  heap : Heap
  handed : List (Nat × Nat)

/-- What happens to the pool: a request, a free, a byte that the holder of a block stores, and whatever
the rest of the kernel does with frames and page tables. -/
inductive Event
  | allocate (numberOfBytes : Nat)
  | free (pointer : Nat)
  | store (pointer i : Nat) (b : UInt8)
  | environment (paging : Paging)

def step (k : Kernel) : Event → Except KernelPanic Kernel
  | .allocate n =>
    (miAllocatePool k.heap n).map fun (pointer, heap) =>
      ⟨heap, if pointer = 0 then k.handed else (pointer, n) :: k.handed⟩
  | .free pointer =>
    (miFreePool k.heap pointer).map fun heap => ⟨heap, k.handed.filter fun block => block.1 != pointer⟩
  | .store pointer i b =>
    .ok { k with heap := { k.heap with memory := fill k.heap.memory (pointer + i) 1 b } }
  | .environment paging => .ok { k with heap := { k.heap with paging := paging } }

/-- What callers may ask for: any size but zero, frees of blocks that they hold, and bytes of these. -/
def Admissible (k : Kernel) : Event → Prop
  | .allocate n => 0 < n ∧ n < 2 ^ 64
  | .free pointer => ∃ n, (pointer, n) ∈ k.handed
  | .store pointer i _ => ∃ n, (pointer, n) ∈ k.handed ∧ i < n
  | .environment _ => True

/-- The size does not wrap, and the heap need not grow or can grow. -/
def Servable (k : Kernel) : Event → Prop
  | .allocate n => n ≤ 2 ^ 64 - 32 ∧ CanServe k.heap (neededBytes n)
  | .free _ | .store .. | .environment _ => True

inductive Reaches (meets : Kernel → Event → Prop) (memory : Memory) (paging : Paging) : Kernel → Prop
  | start : Reaches meets memory paging ⟨miInitializePool memory paging, []⟩
  | step {k k' : Kernel} {e : Event} : Reaches meets memory paging k → meets k e → step k e = .ok k' →
    Reaches meets memory paging k'

/-- The heap is tiled by the blocks, the free list is the chain of the free ones, and the live ones are
those in the hands of callers. -/
structure Tiled (k : Kernel) (blocks : List Block) : Prop where
  poolEnd : k.heap.poolEnd = miPoolBase + total blocks
  headers : Placed (Described k.heap) miPoolBase blocks
  sized : Sized blocks
  freeList : Chains.Linked (fun x => if k.heap.nextFree x = 0 then none else some (k.heap.nextFree x))
    (if k.heap.freeList = 0 then none else some k.heap.freeList) (freeAt miPoolBase blocks)
  ascending : (freeAt miPoolBase blocks).Pairwise (· < ·)
  apart : Apart blocks
  inUse : k.heap.bytesInUse = ((liveAt miPoolBase blocks).map Prod.snd).sum
  distinct : (k.handed.map Prod.fst).Nodup
  handed : ∀ pointer n, (pointer, n) ∈ k.handed →
    ∃ address size, pointer = address + 16 ∧ n + 16 ≤ size ∧ (address, size) ∈ liveAt miPoolBase blocks
  live : ∀ address size, (address, size) ∈ liveAt miPoolBase blocks → ∃ n, (address + 16, n) ∈ k.handed

/-- A block that is handed out: aligned, zero, inside of the heap and apart from every other one. -/
structure Fresh (k k' : Kernel) (n pointer : Nat) : Prop where
  handed : k'.handed = (pointer, n) :: k.handed
  aligned : pointer % 16 = 0
  zero : ∀ i < n, k'.heap.memory (pointer + i) = 0
  inside : miPoolBase ≤ pointer ∧ pointer + n ≤ k'.heap.poolEnd
  apart : ∀ other m, (other, m) ∈ k.handed → pointer + n ≤ other ∨ other + m ≤ pointer

/-- A request that fails, for want of frames or of addresses: the callers hold what they held, and all that
the heap grew by is free. -/
structure Refused (k k' : Kernel) (n : Nat) : Prop where
  handed : k'.handed = k.handed
  cause : k'.heap.paging.frames = 0 ∨ 2 ^ 64 - pageSize < neededBytes n
  free : ∀ blocks, Tiled k' blocks → ∀ y, k.heap.poolEnd ≤ y → y < k'.heap.poolEnd →
    ∃ before size after, blocks = before ++ ⟨size, false⟩ :: after ∧
      miPoolBase + total before ≤ y ∧ y < miPoolBase + total before + size

/-- The event does not stop the kernel, and a request is answered. -/
def Served (k : Kernel) (e : Event) : Prop :=
  ∃ k', step k e = .ok k' ∧ ∀ n, e = .allocate n → (∃ pointer, Fresh k k' n pointer) ∨ Refused k k' n

/-- The pool does what it is for, in every state of every run whose steps meet the condition. -/
structure PoolKept (meets : Kernel → Event → Prop) (memory : Memory) (paging : Paging) : Prop where
  tiled : ∀ k, Reaches meets memory paging k → ∃ blocks, Tiled k blocks
  served : ∀ k e, Reaches meets memory paging k → meets k e → Served k e

structure Kept (k : Kernel) (blocks : List Block) : Prop where
  sound : Sound k.heap blocks
  distinct : (k.handed.map Prod.fst).Nodup
  handed : ∀ pointer n, (pointer, n) ∈ k.handed →
    ∃ address size, pointer = address + 16 ∧ n + 16 ≤ size ∧ (address, size) ∈ liveAt miPoolBase blocks
  live : ∀ address size, (address, size) ∈ liveAt miPoolBase blocks → ∃ n, (address + 16, n) ∈ k.handed

variable {k k' : Kernel} {e : Event} {front back : List (Nat × Nat)} {address size pointer : Nat}
  {memory : Memory} {paging : Paging}

theorem Kept.tiled (h : Kept k blocks) : Tiled k blocks where
  poolEnd := h.sound.holds.poolEnd
  headers := h.sound.holds.laid.described
  sized := h.sound.holds.sized
  freeList := by
    rw [h.sound.holds.freeList]
    exact h.sound.holds.laid.linked h.sound.holds.sized (Nat.succ_pos _)
  ascending := freeAt_ascending fun b hb => Nat.lt_of_lt_of_le (Nat.succ_pos 31) (h.sound.holds.sized.le b hb)
  apart := h.sound.apart
  inUse := h.sound.inUse
  distinct := h.distinct
  handed := h.handed
  live := h.live

theorem liveAt_spec (hsized : Sized blocks) (h : (address, size) ∈ liveAt miPoolBase blocks) :
    32 ≤ size ∧ address % 16 = 0 ∧ miPoolBase ≤ address ∧ address + size ≤ miPoolBase + total blocks := by
  obtain ⟨hlow, hhigh⟩ := liveAt_bounds h
  obtain ⟨before, after, rfl, rfl⟩ := exists_of_mem_liveAt h
  obtain ⟨hbefore, hrest⟩ := sized_append.mp hsized
  have htotal := total_mod (m := 16) fun b hb => (hbefore b hb).2
  have hbase : miPoolBase % 16 = 0 := rfl
  exact ⟨(sized_cons.mp hrest).1.1, by omega, hlow, hhigh⟩

theorem Handed.apart (h : Handed blocks blocks' front back x z)
    (hy : (y, size) ∈ liveAt miPoolBase blocks) : x + z ≤ y ∨ y + size ≤ x := by
  have hdisjoint := liveAt_disjoint (a := miPoolBase) (p := blocks')
  rw [h.after, pairwise_append] at hdisjoint
  obtain ⟨-, hback, hseam⟩ := hdisjoint
  rw [h.before, mem_append] at hy
  obtain hy | hy := hy
  · exact .inr (hseam _ hy (x, z) mem_cons_self)
  · exact .inl (rel_of_pairwise_cons hback hy)

theorem Handed.mem_after (h : Handed blocks blocks' front back x z) :
    (y, size) ∈ liveAt miPoolBase blocks' ↔ (y, size) = (x, z) ∨ (y, size) ∈ liveAt miPoolBase blocks := by
  rw [h.after, h.before, mem_append, mem_append, mem_cons]
  exact or_left_comm

theorem Sound.withPaging (h : Sound s blocks) (paging : Paging) : Sound { s with paging := paging } blocks :=
  ⟨⟨h.holds.laid.congr h.holds.sized fun _ _ _ => rfl, h.holds.freeList, h.holds.sized, h.holds.poolEnd,
    h.holds.bound⟩, h.apart, h.inUse, h.pages, h.shadow⟩

theorem Kept.allocate (h : Kept k blocks) {heap : Heap} (hsound : Sound heap blocks')
    (hhanded : Handed blocks blocks' front back address size) (hsize : n + 16 ≤ size) :
    Kept ⟨heap, (address + 16, n) :: k.handed⟩ blocks' := by
  refine ⟨hsound, ?_, ?_, ?_⟩
  · rw [map_cons, nodup_cons]
    refine ⟨?_, h.distinct⟩
    rintro hmem
    obtain ⟨⟨pointer, m⟩, hblock, heq⟩ := List.mem_map.mp hmem
    obtain ⟨y, size', hpointer, hm, hlive⟩ := h.handed pointer m hblock
    have hy := (liveAt_spec h.sound.holds.sized hlive).1
    have hapart := hhanded.apart hlive
    simp only at heq
    omega
  · intro pointer m hmem
    obtain heq | hmem := mem_cons.mp hmem
    · cases heq
      exact ⟨address, size, rfl, hsize, hhanded.mem_after.mpr (.inl rfl)⟩
    · obtain ⟨y, size', hpointer, hm, hlive⟩ := h.handed pointer m hmem
      exact ⟨y, size', hpointer, hm, hhanded.mem_after.mpr (.inr hlive)⟩
  · intro y size' hlive
    obtain heq | hlive := hhanded.mem_after.mp hlive
    · cases heq
      exact ⟨n, mem_cons_self⟩
    · obtain ⟨m, hmem⟩ := h.live y size' hlive
      exact ⟨m, .tail _ hmem⟩

theorem Kept.free (h : Kept k blocks) {heap : Heap} (hsound : Sound heap blocks')
    (hhanded : Handed blocks' blocks front back address size) :
    Kept ⟨heap, k.handed.filter fun block => block.1 != address + 16⟩ blocks' := by
  refine ⟨hsound, h.distinct.sublist (filter_sublist.map _), ?_, ?_⟩
  · intro pointer m hmem
    obtain ⟨hmem, hne⟩ := mem_filter.mp hmem
    obtain ⟨y, size', hpointer, hm, hlive⟩ := h.handed pointer m hmem
    obtain heq | hlive := hhanded.mem_after.mp hlive
    · cases heq
      rw [hpointer] at hne
      simp at hne
    · exact ⟨y, size', hpointer, hm, hlive⟩
  · intro y size' hlive
    obtain ⟨m, hmem⟩ := h.live y size' (hhanded.mem_after.mpr (.inr hlive))
    have hapart := hhanded.apart hlive
    have hy := (liveAt_spec hsound.holds.sized hlive).1
    have hsize := (liveAt_spec h.sound.holds.sized (hhanded.mem_after.mpr (.inl rfl))).1
    refine ⟨m, mem_filter.mpr ⟨hmem, bne_iff_ne.mpr ?_⟩⟩
    simp only
    omega

theorem Kept.store (h : Kept k blocks) {i : Nat} {b : UInt8} (hpointer : (pointer, n) ∈ k.handed)
    (hi : i < n) :
    Kept { k with heap := { k.heap with memory := fill k.heap.memory (pointer + i) 1 b } } blocks := by
  obtain ⟨address, size, rfl, hsize, hlive⟩ := h.handed pointer n hpointer
  obtain ⟨p, q, rfl, rfl⟩ := exists_of_mem_liveAt hlive
  have hbody := h.sound.holds.body (m := fill k.heap.memory (miPoolBase + total p + 16 + i) 1 b) (by
    intro j hj
    apply fill_outside
    omega)
  exact ⟨⟨hbody, h.sound.apart, h.sound.inUse, h.sound.pages, h.sound.shadow⟩, h.distinct, h.handed, h.live⟩

theorem Kept.refused (h : Kept k blocks) (h' : Kept k' blocks') (hhanded : k'.handed = k.handed)
    (hlive : liveAt miPoolBase blocks' = liveAt miPoolBase blocks)
    (hcause : k'.heap.paging.frames = 0 ∨ 2 ^ 64 - pageSize < neededBytes n) : Refused k k' n := by
  refine ⟨hhanded, hcause, ?_⟩
  intro blocks'' htiled y hlow hhigh
  have hend := h.sound.holds.poolEnd
  have hend' := h'.sound.holds.poolEnd
  have hend'' := htiled.poolEnd
  obtain rfl : blocks'' = blocks' := described_unique htiled.headers h'.tiled.headers htiled.sized
    h'.tiled.sized (by omega)
  obtain ⟨before, ⟨size, live⟩, after, rfl, hstart, hstop⟩ :=
    exists_block (a := miPoolBase) (x := y) (p := blocks'') (by omega) (by omega)
  cases live with
  | false => exact ⟨before, size, after, rfl, hstart, hstop⟩
  | true =>
    -- a live block was there before, below the end that the heap had
    have hmem : (miPoolBase + total before, size) ∈ liveAt miPoolBase blocks := by
      rw [← hlive, liveAt_live]
      exact mem_append_right _ mem_cons_self
    have hbounds := (liveAt_bounds hmem).2
    simp only at hstop
    omega

theorem Kept.step (h : Kept k blocks) (hadmissible : Admissible k e) (hservable : Servable k e) :
    ∃ k' blocks', step k e = .ok k' ∧ Kept k' blocks' ∧
      ∀ n, e = .allocate n → (∃ pointer, Fresh k k' n pointer) ∨ Refused k k' n := by
  cases e with
  | allocate n =>
    obtain ⟨hn, -⟩ := hadmissible
    obtain ⟨hlarge, hserve⟩ := hservable
    obtain ⟨⟨pointer, heap⟩, hresult, hle, blocks', hsound, hanswer⟩ :=
      miAllocatePool_gives h.sound hn hlarge hserve
    have hstep : Pool.step k (.allocate n) =
        .ok ⟨heap, if pointer = 0 then k.handed else (pointer, n) :: k.handed⟩ := by
      rw [Pool.step, hresult]
      rfl
    obtain ⟨address, size, front, back, rfl, hsize, hhanded, hzero⟩ | ⟨rfl, hlive, hcause⟩ := hanswer
    · rw [if_neg (Nat.succ_ne_zero _)] at hstep
      have hkept := h.allocate hsound hhanded hsize
      have hmem := hhanded.mem_after.mpr (.inl rfl)
      obtain ⟨-, haligned, hlow, hhigh⟩ := liveAt_spec hsound.holds.sized hmem
      have hend := hsound.holds.poolEnd
      refine ⟨_, blocks', hstep, hkept, ?_⟩
      rintro m heq
      cases heq
      left
      refine ⟨address + 16, rfl, by omega, hzero, ⟨by omega, ?_⟩, ?_⟩
      · simp only at hend ⊢
        omega
      · intro other m hother
        obtain ⟨y, size', rfl, hm, hlive⟩ := h.handed other m hother
        have hapart := hhanded.apart hlive
        omega
    · rw [if_pos rfl] at hstep
      have hkept : Kept ⟨heap, k.handed⟩ blocks' := by
        refine ⟨hsound, h.distinct, ?_, ?_⟩
        · rw [hlive]
          exact h.handed
        · rw [hlive]
          exact h.live
      refine ⟨_, blocks', hstep, hkept, ?_⟩
      rintro m heq
      cases heq
      exact .inr (h.refused hkept rfl hlive hcause)
  | free pointer =>
    obtain ⟨n, hmem⟩ := hadmissible
    obtain ⟨address, size, rfl, -, hlive⟩ := h.handed pointer n hmem
    obtain ⟨heap, hresult, -, blocks', front, back, hsound, hhanded⟩ := miFreePool_gives h.sound hlive
    refine ⟨_, blocks', ?_, h.free hsound hhanded, nofun⟩
    rw [Pool.step, hresult]
    rfl
  | store pointer i b =>
    obtain ⟨n, hmem, hi⟩ := hadmissible
    exact ⟨_, blocks, rfl, h.store hmem hi, nofun⟩
  | environment paging =>
    exact ⟨_, blocks, rfl, ⟨h.sound.withPaging paging, h.distinct, h.handed, h.live⟩, nofun⟩

theorem kept_start (memory : Memory) (paging : Paging) : Kept ⟨miInitializePool memory paging, []⟩ [] :=
  have hbase : miPoolBase < 2 ^ 64 := by decide
  have hpages : miPoolBase % pageSize = 0 := by decide
  have hshadow : miKasanShadowBase % pageSize = 0 := by decide
  ⟨⟨⟨trivial, rfl, nofun, rfl, hbase⟩, .nil, rfl, hpages, hshadow⟩, .nil, nofun, nofun⟩

/-- The invariant holds in every state of a run whose steps meet the condition. -/
theorem Reaches.kept (h : Reaches (fun k e => Admissible k e ∧ Servable k e) memory paging k) :
    ∃ blocks, Kept k blocks := by
  induction h with
  | start => exact ⟨[], kept_start memory paging⟩
  | step _ hmeets hstep ih =>
    obtain ⟨blocks, hkept⟩ := ih
    obtain ⟨k', blocks', hstep', hkept', -⟩ := hkept.step hmeets.1 hmeets.2
    rw [hstep] at hstep'
    cases hstep'
    exact ⟨blocks', hkept'⟩

/-- In every run in which no size wraps and the heap only grows by pages that can be had with their tables
and their shadow, the pool does what it is for. -/
theorem poolKept_servable (memory : Memory) (paging : Paging) :
    PoolKept (fun k e => Admissible k e ∧ Servable k e) memory paging where
  tiled := by
    intro k hk
    obtain ⟨blocks, hkept⟩ := hk.kept
    exact ⟨blocks, hkept.tiled⟩
  served := by
    intro k e hk hmeets
    obtain ⟨blocks, hkept⟩ := hk.kept
    obtain ⟨k', blocks', hstep, -, hserved⟩ := hkept.step hmeets.1 hmeets.2
    exact ⟨k', hstep, hserved⟩

def tenFrames : Paging where
  pml4 := fun _ => .absent
  frozen := false
  frames := 10

def tenFramesKernel : Kernel := ⟨miInitializePool (fun _ => 0) tenFrames, []⟩

/-- The page of the heap and the page of its shadow, each with three tables on the way to it. -/
theorem backed_tenFrames : Backed 1 tenFramesKernel.heap := by
  have hpages : pagesFor tenFramesKernel.heap = [miPoolBase, miKasanShadowBase] := by decide +kernel
  refine .inr ⟨by decide, ?_, trivial⟩
  rw [hpages]
  exact ⟨by decide, ⟨nofun, id, id, id, rfl⟩, by decide, by decide, ⟨nofun, id, id, id, rfl⟩, by decide, trivial⟩

/-- A block is handed out, and freed again. -/
theorem poolKept_servable_tenFrames : ∃ k k' blocks,
    Reaches (fun k e => Admissible k e ∧ Servable k e) (fun _ => 0) tenFrames k ∧
      k.handed = [(miPoolBase + 16, 24)] ∧ Tiled k blocks ∧
      step k (.free (miPoolBase + 16)) = .ok k' ∧ k'.handed = [] := by
  have hkept := poolKept_servable (fun _ => 0) tenFrames
  have hmeets : Admissible tenFramesKernel (.allocate 24) ∧ Servable tenFramesKernel (.allocate 24) :=
    ⟨⟨by decide, by decide⟩, by decide, .inr backed_tenFrames⟩
  obtain ⟨k, hstep, -⟩ := hkept.served tenFramesKernel _ .start hmeets
  have hreached : Reaches (fun k e => Admissible k e ∧ Servable k e) (fun _ => 0) tenFrames k :=
    .step .start hmeets hstep
  have hallocates : (step tenFramesKernel (.allocate 24)).toOption.map (·.handed) =
      some [(miPoolBase + 16, 24)] := by
    decide +kernel
  have hhanded : k.handed = [(miPoolBase + 16, 24)] := by
    rw [hstep] at hallocates
    exact Option.some.inj hallocates
  have hmem : (miPoolBase + 16, 24) ∈ k.handed := by
    rw [hhanded]
    exact mem_singleton_self _
  obtain ⟨blocks, htiled⟩ := hkept.tiled k hreached
  obtain ⟨k', hfree, -⟩ := hkept.served k (.free (miPoolBase + 16)) hreached ⟨⟨24, hmem⟩, trivial⟩
  have hfreed : k'.handed = k.handed.filter fun block => block.1 != miPoolBase + 16 := by
    rw [step] at hfree
    obtain ⟨heap, hheap, hk⟩ := map_eq_ok hfree
    rw [← hk]
  exact ⟨k, k', blocks, hreached, hhanded, htiled, hfree, by rw [hfreed, hhanded]; rfl⟩

def oneFrame : Paging where
  pml4 := fun _ => .absent
  frozen := false
  frames := 1

/-- The one frame goes to the page of the heap, and there is none for the tables on the way to it. -/
theorem not_poolKept_oneFrame : ¬ ∀ memory paging, PoolKept Admissible memory paging := by
  intro h
  obtain ⟨k', hstep, -⟩ := (h (fun _ => 0) oneFrame).served _ (.allocate 24) .start ⟨by decide, by decide⟩
  have hpanic : (step ⟨miInitializePool (fun _ => 0) oneFrame, []⟩ (.allocate 24)).isOk = false := by
    decide +kernel
  rw [hstep] at hpanic
  cases hpanic

end Proskrnl.Mm.Pool
