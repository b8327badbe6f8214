import Mathlib

/-!
# Stores to a buffer

A store puts a list of cells at an offset of a memory. Stores that are pairwise apart are all read
back after the last of them, in whatever order they were made, and what is outside of them is as it
was.
-/

namespace Stores
open List
variable {α : Type}

structure Store (α : Type) where
  offset : Nat
  data : List α

namespace Store

def stop (s : Store α) : Nat := s.offset + s.data.length

def Apart (s t : Store α) : Prop := s.stop ≤ t.offset ∨ t.stop ≤ s.offset

def apply (s : Store α) (m : Nat → α) (i : Nat) : α :=
  if i < s.offset then m i else s.data.getD (i - s.offset) (m i)

end Store

/-- The memory after stores, one after the other. -/
def applyAll (stores : List (Store α)) (m : Nat → α) : Nat → α :=
  stores.foldl (fun m s => s.apply m) m

def Holds (m : Nat → α) (offset : Nat) (data : List α) : Prop :=
  ∀ j a, data[j]? = some a → m (offset + j) = a

section
variable {s t : Store α} {stores rest : List (Store α)} {m : Nat → α} {i offset a b c d : Nat}
  {data : List α}

theorem Store.Apart.symm (h : s.Apart t) : t.Apart s := Or.symm h

theorem apply_outside (h : i < s.offset ∨ s.stop ≤ i) : s.apply m i = m i := by
  unfold Store.apply
  split
  · rfl
  · rename_i hge
    have hlength : s.data.length ≤ i - s.offset := by
      rcases h with h | h
      · exact absurd h hge
      · unfold Store.stop at h
        omega
    rw [getD_eq_default _ _ hlength]

theorem holds_apply : Holds (s.apply m) s.offset s.data := by
  intro j a hj
  unfold Store.apply
  rw [if_neg (by omega), Nat.add_sub_cancel_left, getD_eq_getElem?_getD, hj]
  rfl

theorem Holds.apply (h : Holds m offset data)
    (happart : s.stop ≤ offset ∨ offset + data.length ≤ s.offset) :
    Holds (s.apply m) offset data := by
  intro j a hj
  have hlt : j < data.length := (List.getElem?_eq_some_iff.mp hj).1
  rw [apply_outside]
  · exact h j a hj
  · rcases happart with hbefore | hafter
    · exact .inr (by omega)
    · exact .inl (by omega)

theorem Holds.applyAll (h : Holds m offset data)
    (happart : ∀ s ∈ stores, s.stop ≤ offset ∨ offset + data.length ≤ s.offset) :
    Holds (applyAll stores m) offset data := by
  induction stores generalizing m with
  | nil => exact h
  | cons s stores ih =>
    refine ih (h.apply (happart s mem_cons_self)) ?_
    exact fun t ht => happart t (mem_cons_of_mem _ ht)

theorem holds_applyAll (hpairwise : stores.Pairwise Store.Apart) (hs : s ∈ stores) :
    Holds (applyAll stores m) s.offset s.data := by
  induction stores generalizing m with
  | nil => cases hs
  | cons t stores ih =>
    obtain ⟨hapart, hpairwise⟩ := pairwise_cons.mp hpairwise
    rcases mem_cons.mp hs with rfl | hs
    · show Holds (applyAll stores (s.apply m)) s.offset s.data
      refine Holds.applyAll holds_apply ?_
      intro t ht
      exact (hapart t ht).symm
    · exact ih hpairwise hs

theorem Holds.append {data' : List α} (h : Holds m offset data)
    (h' : Holds m (offset + data.length) data') : Holds m offset (data ++ data') := by
  intro j a hj
  rcases Nat.lt_or_ge j data.length with hlt | hge
  · rw [getElem?_append_left hlt] at hj
    exact h j a hj
  · rw [getElem?_append_right hge] at hj
    have := h' (j - data.length) a hj
    rwa [Nat.add_assoc, Nat.add_sub_cancel' hge] at this

end

end Stores
