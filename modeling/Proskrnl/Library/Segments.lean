import Mathlib

/-!
# Positions in a row of segments

Segments `first`, `first + 1` and so on stand end to end, the `i`-th of length `len i`. A position is a
segment and an offset in it, or a distance from the start of the row. `locate` subtracts one length
after the other to get from the distance to the segment.
-/

namespace Proskrnl.Segments

variable {len : Nat → Nat} {first n m r s d fuel : Nat}

/-- The length of the first `n` segments. -/
def total (len : Nat → Nat) (first : Nat) : Nat → Nat
  | 0 => 0
  | n + 1 => total len first n + len (first + n)

/-- The segment and the offset of a distance, in at most `fuel` subtractions. -/
def locate (len : Nat → Nat) : Nat → Nat → Nat → Nat × Nat
  | 0, first, d => (first, d)
  | fuel + 1, first, d =>
    if d < len first then (first, d) else locate len fuel (first + 1) (d - len first)

theorem total_succ (len : Nat → Nat) (first n : Nat) :
    total len first (n + 1) = total len first n + len (first + n) := rfl

theorem total_cons (len : Nat → Nat) (first n : Nat) :
    total len first (n + 1) = len first + total len (first + 1) n := by
  induction n with
  | zero => exact Nat.add_comm _ _
  | succ n ih =>
    rw [total_succ, ih, total_succ, Nat.add_assoc, Nat.add_assoc, Nat.add_comm 1 n]

theorem total_mono (len : Nat → Nat) (first : Nat) (h : n ≤ m) : total len first n ≤ total len first m := by
  induction h with
  | refl => exact le_refl _
  | step _ ih => exact ih.trans (Nat.le_add_right _ _)

theorem total_add_lt (hr : r < len (first + n)) (h : n < m) : total len first n + r < total len first m :=
  lt_of_lt_of_le (Nat.add_lt_add_left hr _) (total_mono len first h)

theorem eq_of_total_add_eq (hr : r < len (first + n)) (hs : s < len (first + m))
    (h : total len first n + r = total len first m + s) : n = m ∧ r = s := by
  rcases Nat.lt_trichotomy n m with hlt | rfl | hlt
  · exact absurd (total_add_lt hr hlt) (by omega)
  · exact ⟨rfl, Nat.add_left_cancel h⟩
  · exact absurd (total_add_lt hs hlt) (by omega)

theorem locate_spec (h : d < total len first fuel) :
    ∃ n < fuel, ∃ r < len (first + n), locate len fuel first d = (first + n, r) ∧
      total len first n + r = d := by
  induction fuel generalizing first d with
  | zero => cases h
  | succ fuel ih =>
    rw [locate]
    split
    case isTrue hlt => exact ⟨0, Nat.succ_pos _, d, hlt, rfl, Nat.zero_add d⟩
    case isFalse hge =>
      rw [total_cons] at h
      obtain ⟨n, hn, r, hr, hlocate, hsum⟩ := @ih (first + 1) (d - len first) (by omega)
      have hshift : first + 1 + n = first + (n + 1) := by omega
      rw [hshift] at hr hlocate
      refine ⟨n + 1, Nat.succ_lt_succ hn, r, hr, hlocate, ?_⟩
      rw [total_cons]
      omega

theorem locate_eq (hn : n < fuel) (hr : r < len (first + n)) :
    locate len fuel first (total len first n + r) = (first + n, r) := by
  obtain ⟨m, -, s, hs, hlocate, hsum⟩ := locate_spec (total_add_lt hr hn)
  obtain ⟨rfl, rfl⟩ := eq_of_total_add_eq hr hs hsum.symm
  exact hlocate

theorem le_total (hlen : ∀ i, 0 < len i) (first n : Nat) : n ≤ total len first n := by
  induction n with
  | zero => exact le_refl _
  | succ n ih => exact Nat.add_le_add ih (hlen _)

end Proskrnl.Segments
