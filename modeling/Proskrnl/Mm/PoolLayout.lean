import Proskrnl.Mm.Pool

/-!
# The layout of the pool

The blocks that tile the heap, as the headers in memory and the free list describe them, and what a change
of one header or one link does to the description.
-/

namespace Proskrnl.Mm.Pool

open WordMemory Tilings

/-- `MI_POOL_HEADER`. -/
structure Header where
  size : Nat
  magic : Nat
  nextFree : Nat

def Heap.header (s : Heap) (x : Nat) : Header := ⟨s.size x, s.magic x, s.nextFree x⟩

def Clear (x block : Nat) : Prop := x + 32 ≤ block ∨ block + 32 ≤ x

section
variable {s : Heap} {block x v : Nat}

theorem header_setSize_self (hv : v < 2 ^ 64) :
    (s.setSize block v).header block = ⟨v, (s.header block).magic, (s.header block).nextFree⟩ := by
  rw [Heap.header, Heap.header, Heap.size, Heap.magic, Heap.nextFree, Heap.setSize, word_setWord_self hv,
    word_setWord_apart (by omega), word_setWord_apart (by omega)]
  rfl

theorem header_setMagic_self (hv : v < 2 ^ 64) :
    (s.setMagic block v).header block = ⟨(s.header block).size, v, (s.header block).nextFree⟩ := by
  rw [Heap.header, Heap.header, Heap.size, Heap.magic, Heap.nextFree, Heap.setMagic, word_setWord_self hv,
    word_setWord_apart (by omega), word_setWord_apart (by omega)]
  rfl

theorem header_setNextFree_self (hv : v < 2 ^ 64) :
    (s.setNextFree block v).header block = ⟨(s.header block).size, (s.header block).magic, v⟩ := by
  rw [Heap.header, Heap.header, Heap.size, Heap.magic, Heap.nextFree, Heap.setNextFree,
    word_setWord_self hv, word_setWord_apart (by omega), word_setWord_apart (by omega)]
  rfl

theorem header_setWord {n : Nat} (hclear : Clear x block) (hn : n ≤ 16) :
    ({ s with memory := setWord s.memory (block + n) v } : Heap).header x = s.header x := by
  unfold Clear at hclear
  rw [Heap.header, Heap.header, Heap.size, Heap.magic, Heap.nextFree, word_setWord_apart (by omega),
    word_setWord_apart (by omega), word_setWord_apart (by omega)]
  rfl

theorem header_setSize (hclear : Clear x block) : (s.setSize block v).header x = s.header x :=
  header_setWord (n := 0) hclear (by omega)

theorem header_setMagic (hclear : Clear x block) : (s.setMagic block v).header x = s.header x :=
  header_setWord hclear (by omega)

theorem header_setNextFree (hclear : Clear x block) : (s.setNextFree block v).header x = s.header x :=
  header_setWord hclear (by omega)

end

def magicOf (live : Bool) : Nat := if live then miPoolAllocatedMagic else miPoolFreeMagic

/-- The headers describe the blocks from `a` on, and each free block leads to the next one, the last one to
`t`. -/
def Laid (s : Heap) (t : Nat) : Nat → List Block → Prop
  | _, [] => True
  | a, b :: rest =>
    (s.header a).size = b.size ∧ (s.header a).magic = magicOf b.live ∧
      (b.live = false → (s.header a).nextFree = first t (a + b.size) rest) ∧ Laid s t (a + b.size) rest

def Sized (blocks : List Block) : Prop := ∀ b ∈ blocks, 32 ≤ b.size ∧ b.size % 16 = 0

variable {s s' : Heap} {t a x z : Nat} {p q : List Block}

theorem Sized.le (h : Sized p) : ∀ b ∈ p, 32 ≤ b.size := fun b hb => (h b hb).1

theorem sized_append : Sized (p ++ q) ↔ Sized p ∧ Sized q := List.forall_mem_append

theorem sized_cons {b : Block} : Sized (b :: p) ↔ (32 ≤ b.size ∧ b.size % 16 = 0) ∧ Sized p :=
  List.forall_mem_cons

theorem laid_append : Laid s t a (p ++ q) ↔ Laid s (first t (a + total p) q) a p ∧ Laid s t (a + total p) q := by
  induction p generalizing a with
  | nil => exact (and_iff_right trivial).symm
  | cons b p ih =>
    rw [List.cons_append, Laid, Laid, ih, total, first_append, Nat.add_assoc]
    constructor
    · rintro ⟨hsize, hmagic, hnext, hp, hq⟩
      exact ⟨⟨hsize, hmagic, hnext, hp⟩, hq⟩
    · rintro ⟨⟨hsize, hmagic, hnext, hp⟩, hq⟩
      exact ⟨hsize, hmagic, hnext, hp, hq⟩

theorem Laid.congr (h : Laid s t a p) (hp : Sized p)
    (hheader : ∀ x, a ≤ x → x + 32 ≤ a + total p → s'.header x = s.header x) : Laid s' t a p := by
  induction p generalizing a with
  | nil => trivial
  | cons b p ih =>
    obtain ⟨hsize, hmagic, hnext, hrest⟩ := h
    obtain ⟨hb, hp⟩ := sized_cons.mp hp
    rw [total] at hheader
    have hself := hheader a (Nat.le_refl a) (by omega)
    rw [Laid, hself]
    refine ⟨hsize, hmagic, hnext, ih hrest hp fun x hlow hhigh => ?_⟩
    apply hheader <;> omega

theorem Laid.of_lastFree_eq_none {t' : Nat} (h : Laid s t a p) (hnone : lastFree a p = none) :
    Laid s t' a p := by
  induction p generalizing a with
  | nil => trivial
  | cons b p ih =>
    obtain ⟨hsize, hmagic, -, hrest⟩ := h
    rw [lastFree, Option.or_eq_none_iff] at hnone
    obtain ⟨hlast, hb⟩ := hnone
    refine ⟨hsize, hmagic, fun hfree => ?_, ih hrest hlast⟩
    rw [hfree] at hb
    cases hb

theorem link_lastFree (h : Laid s t a p) (hfreeList : s.freeList = first t a p) :
    s.link (lastFree a p) = t := by
  cases hlast : lastFree a p with
  | none =>
    rw [first_of_lastFree_eq_none t hlast] at hfreeList
    exact hfreeList
  | some x =>
    obtain ⟨before, size, after, rfl, rfl, hnone⟩ := lastFree_eq_some hlast
    obtain ⟨-, -, -, hnext, -⟩ := laid_append.mp h
    exact (hnext rfl).trans (first_of_lastFree_eq_none t hnone)

theorem Laid.redirect (h : Laid s t a p) (hp : Sized p) (hfreeList : s.freeList = first t a p) (t' : Nat)
    (ht' : t' < 2 ^ 64) :
    Laid (s.setLink t' (lastFree a p)) t' a p ∧ (s.setLink t' (lastFree a p)).freeList = first t' a p ∧
      ∀ x, a + total p ≤ x → (s.setLink t' (lastFree a p)).header x = s.header x := by
  cases hlast : lastFree a p with
  | none =>
    exact ⟨(h.of_lastFree_eq_none hlast).congr hp fun _ _ _ => rfl,
      (first_of_lastFree_eq_none t' hlast).symm, fun x _ => rfl⟩
  | some x =>
    obtain ⟨before, size, after, rfl, rfl, hnone⟩ := lastFree_eq_some hlast
    obtain ⟨hbefore, hsize, hmagic, -, hafter⟩ := laid_append.mp h
    obtain ⟨hsized, hafterSized⟩ := sized_append.mp hp
    obtain ⟨hb, hafterSized⟩ := sized_cons.mp hafterSized
    simp only at hb
    have hself := @header_setNextFree_self s (a + total before) t' ht'
    refine ⟨laid_append.mpr ⟨?_, ?_⟩, ?_, ?_⟩
    · rw [first] at hbefore ⊢
      apply hbefore.congr hsized
      intro x _ hhigh
      exact header_setNextFree (.inl hhigh)
    · rw [Laid, Heap.setLink, hself]
      refine ⟨hsize, hmagic, fun _ => (first_of_lastFree_eq_none t' hnone).symm, ?_⟩
      apply (hafter.of_lastFree_eq_none hnone).congr hafterSized
      intro x hlow _
      simp only at hlow
      apply header_setNextFree
      exact .inr (by omega)
    · rw [first_append, first] at hfreeList ⊢
      exact hfreeList
    · intro x hx
      rw [total_append, total] at hx
      simp only at hx
      apply header_setNextFree
      exact .inr (by omega)

theorem Laid.linked (h : Laid s 0 a p) (hp : Sized p) (ha : 0 < a) :
    Chains.Linked (fun x => if s.nextFree x = 0 then none else some (s.nextFree x))
      (if first 0 a p = 0 then none else some (first 0 a p)) (freeAt a p) := by
  induction p generalizing a with
  | nil => exact .nil
  | cons b p ih =>
    obtain ⟨-, -, hnext, hrest⟩ := h
    obtain ⟨hb, hp⟩ := sized_cons.mp hp
    have hlinked := ih hrest hp (by omega)
    rw [first, freeAt]
    split
    · exact hlinked
    · rename_i hfree
      rw [if_neg (by omega)]
      apply Chains.Linked.cons
      have heq : s.nextFree a = first 0 (a + b.size) p := hnext (Bool.eq_false_of_not_eq_true hfree)
      rw [heq]
      exact hlinked

structure Holds (s : Heap) (blocks : List Block) : Prop where
  laid : Laid s 0 miPoolBase blocks
  freeList : s.freeList = first 0 miPoolBase blocks
  sized : Sized blocks
  poolEnd : s.poolEnd = miPoolBase + total blocks
  bound : s.poolEnd < 2 ^ 64

end Proskrnl.Mm.Pool
