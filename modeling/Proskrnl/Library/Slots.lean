import Mathlib

/-!
# Tables of slots

A list of slots of which some are occupied. `Filled n l` says that `n` of them are; the lemmas say
how the number goes with taking a free slot and with freeing an occupied one, and that a table which
is empty up to its end holds nothing.
-/

namespace Slots
open List
variable {α : Type*} {l : List (Option α)} {n i : Nat} {a : α}

def Filled (n : Nat) (l : List (Option α)) : Prop := n = l.countP Option.isSome

def FreeBelow (i : Nat) (l : List (Option α)) : Prop := ∀ j < i, l[j]?.join = none

theorem filled_replicate : Filled 0 (List.replicate i (none : Option α)) := by
  simp [Filled, countP_replicate]

section
variable (h : Filled n l)
include h

theorem Filled.append_free : Filled n (l ++ List.replicate i none) := by
  simpa [Filled, countP_replicate] using h

theorem Filled.le_length : n ≤ l.length := by
  rw [h]
  exact countP_le_length

theorem Filled.exists_free (hlt : n < l.length) :
    ∃ i, l.findIdx? Option.isNone = some i := by
  cases hfind : l.findIdx? Option.isNone with
  | some i => exact ⟨i, rfl⟩
  | none =>
    have hall : ∀ a ∈ l, Option.isSome a = true := by
      intro a ha
      have := findIdx?_eq_none_iff.mp hfind a ha
      simpa [Option.isNone_iff_eq_none, Option.isSome_iff_ne_none] using this
    have : n = l.length := h.trans (countP_eq_length.mpr hall)
    omega

theorem Filled.set_some (hi : l.findIdx? Option.isNone = some i) :
    Filled (n + 1) (l.set i (some a)) := by
  obtain ⟨hlt, hnone, -⟩ := findIdx?_eq_some_iff_getElem.mp hi
  have hfree : l[i] = none := by simpa using hnone
  unfold Filled at h ⊢
  rw [countP_set hlt, hfree, ← h]
  simp

theorem Filled.set_none (hi : l[i]?.join = some a) :
    Filled (n - 1) (l.set i none) ∧ 0 < n := by
  have hi : l[i]? = some (some a) := by
    cases hl : l[i]? with
    | none => rw [hl] at hi; cases hi
    | some x => rw [hl] at hi; exact congrArg some hi
  obtain ⟨hlt, hget⟩ := List.getElem?_eq_some_iff.mp hi
  unfold Filled at h ⊢
  refine ⟨?_, ?_⟩
  · rw [countP_set hlt, hget, ← h]
    simp
  · rw [h]
    exact countP_pos_iff.mpr ⟨some a, mem_of_getElem? hi, rfl⟩

theorem Filled.eq_zero (hfree : FreeBelow l.length l) : n = 0 := by
  refine h.trans (countP_eq_zero.mpr ?_)
  intro a ha
  obtain ⟨j, hj⟩ := mem_iff_getElem?.mp ha
  have hlt : j < l.length := (List.getElem?_eq_some_iff.mp hj).1
  have := hfree j hlt
  rw [hj] at this
  cases a with
  | none => simp
  | some a => cases this

end

theorem FreeBelow.zero : FreeBelow 0 l := fun j hj => absurd hj (Nat.not_lt_zero j)

theorem FreeBelow.succ (h : FreeBelow i l) (hi : l[i]?.join = none) : FreeBelow (i + 1) l := by
  intro j hj
  rcases Nat.lt_succ_iff_lt_or_eq.mp hj with hj | rfl
  · exact h j hj
  · exact hi

theorem join_set_none (j : Nat) : (l.set j none)[i]?.join = none ∨
    (l.set j none)[i]? = l[i]? ∧ i ≠ j := by
  by_cases hij : j = i
  · subst hij
    left
    rw [getElem?_set_self']
    cases l[j]? <;> rfl
  · exact .inr ⟨getElem?_set_ne hij, Ne.symm hij⟩

theorem FreeBelow.set_none (h : FreeBelow i l) (j : Nat) : FreeBelow i (l.set j none) := by
  intro k hk
  rcases join_set_none (l := l) (i := k) j with hnone | ⟨hsame, -⟩
  · exact hnone
  · rw [hsame]
    exact h k hk

theorem FreeBelow.set_none_succ (h : FreeBelow i l) : FreeBelow (i + 1) (l.set i none) := by
  refine (h.set_none i).succ ?_
  rcases join_set_none (l := l) (i := i) i with hnone | ⟨-, hne⟩
  · exact hnone
  · exact absurd rfl hne

section
variable {j : Nat} {x : Option α} {b : α}

theorem lt_length (h : l[i]?.join = some a) : i < l.length := by
  by_contra hge
  rw [getElem?_eq_none (by omega)] at h
  cases h

theorem join_set_of_ne (h : j ≠ i) (x : Option α) : (l.set i x)[j]?.join = l[j]?.join := by
  rw [getElem?_set_ne (Ne.symm h)]

theorem join_set_self (h : i < l.length) (x : Option α) : (l.set i x)[i]?.join = x := by
  rw [getElem?_set_self h]
  rfl

end

end Slots
