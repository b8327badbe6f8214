import Mathlib

/-!
# Tilings of a range

A list of blocks, each behind the one before it, tiles a range of addresses. A block is live or free. What
is said of blocks at their addresses splits where the list splits, and the addresses of the free blocks
come in ascending order.
-/

namespace Tilings
open List

structure Block where
  size : Nat
  live : Bool

def total : List Block → Nat
  | [] => 0
  | b :: rest => b.size + total rest

/-- The addresses of the free blocks, where the first block is at `a`. -/
def freeAt : Nat → List Block → List Nat
  | _, [] => []
  | a, b :: rest => if b.live then freeAt (a + b.size) rest else a :: freeAt (a + b.size) rest

def liveAt : Nat → List Block → List (Nat × Nat)
  | _, [] => []
  | a, b :: rest => if b.live then (a, b.size) :: liveAt (a + b.size) rest else liveAt (a + b.size) rest

def Placed (P : Nat → Block → Prop) : Nat → List Block → Prop
  | _, [] => True
  | a, b :: rest => P a b ∧ Placed P (a + b.size) rest

def Apart (blocks : List Block) : Prop := blocks.IsChain fun b c => b.live = true ∨ c.live = true

variable {P Q : Nat → Block → Prop} {a x m size size' : Nat} {p q : List Block} {b : Block}

theorem total_append (p q : List Block) : total (p ++ q) = total p + total q := by
  induction p with
  | nil => exact (Nat.zero_add _).symm
  | cons b p ih => rw [cons_append, total, total, ih, Nat.add_assoc]

theorem liveAt_append (a : Nat) (p q : List Block) :
    liveAt a (p ++ q) = liveAt a p ++ liveAt (a + total p) q := by
  induction p generalizing a with
  | nil => rfl
  | cons b p ih =>
    rw [cons_append, liveAt, liveAt, ih, total, ← Nat.add_assoc]
    split <;> rfl

theorem freeAt_bounds (hm : ∀ b ∈ p, m ≤ b.size) (hx : x ∈ freeAt a p) :
    a ≤ x ∧ x + m ≤ a + total p := by
  induction p generalizing a with
  | nil => cases hx
  | cons b p ih =>
    have hsize := hm b mem_cons_self
    rw [total]
    have hrest : x ∈ freeAt (a + b.size) p → a ≤ x ∧ x + m ≤ a + (b.size + total p) := by
      intro hx
      have h := ih (fun c hc => hm c (.tail _ hc)) hx
      omega
    rw [freeAt] at hx
    split at hx
    · exact hrest hx
    · obtain rfl | hx := mem_cons.mp hx
      · omega
      · exact hrest hx

theorem liveAt_bounds (hx : (x, size) ∈ liveAt a p) : a ≤ x ∧ x + size ≤ a + total p := by
  induction p generalizing a with
  | nil => cases hx
  | cons b p ih =>
    rw [total]
    have hrest : (x, size) ∈ liveAt (a + b.size) p → a ≤ x ∧ x + size ≤ a + (b.size + total p) := by
      intro hx
      have h := ih hx
      omega
    rw [liveAt] at hx
    split at hx
    · obtain heq | hx := mem_cons.mp hx
      · cases heq
        omega
      · exact hrest hx
    · exact hrest hx

theorem total_mod (hm : ∀ b ∈ p, b.size % m = 0) : total p % m = 0 := by
  induction p with
  | nil => exact Nat.zero_mod m
  | cons b p ih =>
    rw [total, Nat.add_mod, hm b mem_cons_self, ih fun c hc => hm c (.tail _ hc), Nat.add_zero,
      Nat.zero_mod]

theorem freeAt_ascending (hm : ∀ b ∈ p, 0 < b.size) : (freeAt a p).Pairwise (· < ·) := by
  induction p generalizing a with
  | nil => exact .nil
  | cons b p ih =>
    have hrest := ih (fun c hc => hm c (.tail _ hc)) (a := a + b.size)
    rw [freeAt]
    split
    · exact hrest
    · refine .cons (fun x hx => ?_) hrest
      have hbounds := freeAt_bounds (fun c hc => hm c (.tail _ hc)) hx
      have hsize := hm b mem_cons_self
      omega

theorem liveAt_disjoint : (liveAt a p).Pairwise fun b c => b.1 + b.2 ≤ c.1 := by
  induction p generalizing a with
  | nil => exact .nil
  | cons b p ih =>
    rw [liveAt]
    split
    · exact .cons (fun c hc => (liveAt_bounds hc).1) ih
    · exact ih

theorem exists_of_mem_liveAt (hx : (x, size) ∈ liveAt a p) :
    ∃ before after, p = before ++ ⟨size, true⟩ :: after ∧ x = a + total before := by
  induction p generalizing a with
  | nil => cases hx
  | cons b p ih =>
    have hrest : (x, size) ∈ liveAt (a + b.size) p →
        ∃ before after, b :: p = before ++ ⟨size, true⟩ :: after ∧ x = a + total before := by
      intro hx
      obtain ⟨before, after, rfl, rfl⟩ := ih hx
      exact ⟨b :: before, after, rfl, Nat.add_assoc ..⟩
    rw [liveAt] at hx
    split at hx
    · rename_i hlive
      obtain heq | hx := mem_cons.mp hx
      · cases heq
        obtain ⟨size, live⟩ := b
        cases hlive
        exact ⟨[], p, rfl, rfl⟩
      · exact hrest hx
    · exact hrest hx

theorem exists_block (hlow : a ≤ x) (hhigh : x < a + total p) :
    ∃ before b after, p = before ++ b :: after ∧ a + total before ≤ x ∧ x < a + total before + b.size := by
  induction p generalizing a with
  | nil => exact absurd hhigh (Nat.not_lt_of_le hlow)
  | cons b p ih =>
    rw [total] at hhigh
    by_cases hx : x < a + b.size
    · exact ⟨[], b, p, rfl, hlow, hx⟩
    · obtain ⟨before, c, after, rfl, hbefore, hafter⟩ := ih (Nat.le_of_not_lt hx) (by omega)
      refine ⟨b :: before, c, after, rfl, ?_, ?_⟩
      · rw [total]
        omega
      · rw [total]
        omega

def liveBytes (a : Nat) (blocks : List Block) : Nat := ((liveAt a blocks).map Prod.snd).sum

theorem liveBytes_le : liveBytes a p ≤ total p := by
  induction p generalizing a with
  | nil => exact Nat.le_refl 0
  | cons b p ih =>
    have hrest := ih (a := a + b.size)
    rw [liveBytes] at hrest
    rw [liveBytes, liveAt, total]
    split
    · rw [map_cons, sum_cons]
      omega
    · omega

theorem liveAt_free (a : Nat) (p q : List Block) (size : Nat) :
    liveAt a (p ++ ⟨size, false⟩ :: q) = liveAt a p ++ liveAt (a + total p + size) q := by
  rw [liveAt_append, liveAt]
  rfl

theorem liveAt_live (a : Nat) (p q : List Block) (size : Nat) :
    liveAt a (p ++ ⟨size, true⟩ :: q) =
      liveAt a p ++ (a + total p, size) :: liveAt (a + total p + size) q := by
  rw [liveAt_append, liveAt]
  rfl

/-- The first free block, `t` where there is none. -/
def first (t : Nat) : Nat → List Block → Nat
  | _, [] => t
  | a, b :: rest => if b.live then first t (a + b.size) rest else a

def lastFree : Nat → List Block → Option Nat
  | _, [] => none
  | a, b :: rest => (lastFree (a + b.size) rest).or (if b.live then none else some a)

theorem first_append (t a : Nat) (p q : List Block) :
    first t a (p ++ q) = first (first t (a + total p) q) a p := by
  induction p generalizing a with
  | nil => rfl
  | cons b p ih =>
    rw [cons_append, first, first, ih, total, Nat.add_assoc]

theorem first_bounds (t : Nat) (hm : ∀ b ∈ p, m ≤ b.size) :
    first t a p = t ∨ (a ≤ first t a p ∧ first t a p + m ≤ a + total p) := by
  induction p generalizing a with
  | nil => exact .inl rfl
  | cons b p ih =>
    have hsize := hm b mem_cons_self
    have hrest := ih (fun c hc => hm c (.tail _ hc)) (a := a + b.size)
    rw [first, total]
    split <;> omega

theorem lastFree_append (a : Nat) (p q : List Block) :
    lastFree a (p ++ q) = (lastFree (a + total p) q).or (lastFree a p) := by
  induction p generalizing a with
  | nil => exact Option.or_none.symm
  | cons b p ih => rw [cons_append, lastFree, lastFree, ih, total, Option.or_assoc, Nat.add_assoc]

theorem first_of_lastFree_eq_none (t : Nat) (h : lastFree a p = none) : first t a p = t := by
  induction p generalizing a with
  | nil => rfl
  | cons b p ih =>
    rw [lastFree, Option.or_eq_none_iff] at h
    obtain ⟨hrest, hb⟩ := h
    rw [first]
    split
    · exact ih hrest
    · rename_i hfree
      rw [if_neg hfree] at hb
      cases hb

theorem lastFree_eq_some (h : lastFree a p = some x) :
    ∃ before size after, p = before ++ ⟨size, false⟩ :: after ∧ x = a + total before ∧
      lastFree (x + size) after = none := by
  induction p generalizing a with
  | nil => cases h
  | cons b p ih =>
    rw [lastFree] at h
    cases hrest : lastFree (a + b.size) p with
    | some y =>
      rw [hrest] at h
      cases h
      obtain ⟨before, size, after, rfl, rfl, hnone⟩ := ih hrest
      exact ⟨b :: before, size, after, rfl, Nat.add_assoc .., hnone⟩
    | none =>
      rw [hrest, Option.none_or] at h
      split at h
      case isTrue => cases h
      case isFalse hfree =>
        cases h
        obtain ⟨size, live⟩ := b
        obtain rfl := Bool.eq_false_of_not_eq_true hfree
        exact ⟨[], size, p, rfl, rfl, hrest⟩

end Tilings
