import Mathlib

/-!
# Counting the places of a map

A partial map with infinitely many places, finitely many of which hold a given entry: `Counted`
says how many. The rules say how the number follows a place that is filled or cleared.
-/

namespace Census
open List

variable {α β : Type*} [DecidableEq α] {f : α → Option β} {a : α} {b c : β} {n : ℕ}

/-- There are `n` places of `f` that hold `b`. -/
def Counted (f : α → Option β) (b : β) (n : ℕ) : Prop :=
  ∃ l : List α, l.Nodup ∧ l.length = n ∧ ∀ a, a ∈ l ↔ f a = some b

omit [DecidableEq α] in
theorem Counted.pos (h : Counted f b n) (ha : f a = some b) : 0 < n := by
  obtain ⟨l, -, rfl, hmem⟩ := h
  exact length_pos_of_mem ((hmem a).mpr ha)

omit [DecidableEq α] in
theorem Counted.of_forall_ne (h : ∀ a, f a ≠ some b) : Counted f b 0 :=
  ⟨[], nodup_nil, rfl, fun a => iff_of_false not_mem_nil (h a)⟩

omit [DecidableEq α] in
theorem Counted.ne_of_zero (h : Counted f b 0) : f a ≠ some b := fun ha =>
  absurd (h.pos ha) (Nat.lt_irrefl 0)

omit [DecidableEq α] in
theorem Counted.congr {g : α → Option β} (h : Counted f b n) (hg : ∀ a, g a = some b ↔ f a = some b) :
    Counted g b n := by
  obtain ⟨l, hnodup, hlength, hmem⟩ := h
  exact ⟨l, hnodup, hlength, fun a => (hmem a).trans (hg a).symm⟩

theorem Counted.fill (h : Counted f b n) (ha : f a = none) :
    Counted (Function.update f a (some b)) b (n + 1) := by
  obtain ⟨l, hnodup, rfl, hmem⟩ := h
  refine ⟨a :: l, nodup_cons.mpr ⟨fun hl => ?_, hnodup⟩, rfl, fun x => ?_⟩
  · rw [(hmem a).mp hl] at ha
    cases ha
  · rw [mem_cons, hmem, Function.update_apply]
    split
    case isTrue hx => exact iff_of_true (.inl hx) rfl
    case isFalse hx => exact or_iff_right hx

theorem Counted.other (h : Counted f b n) (ha : f a ≠ some b) {entry : Option β}
    (hentry : entry ≠ some b) : Counted (Function.update f a entry) b n := by
  obtain ⟨l, hnodup, rfl, hmem⟩ := h
  refine ⟨l, hnodup, rfl, fun x => ?_⟩
  rw [hmem, Function.update_apply]
  split
  case isTrue hx => exact iff_of_false (hx ▸ ha) hentry
  case isFalse => rfl

theorem Counted.clear (h : Counted f b n) (ha : f a = some b) :
    Counted (Function.update f a none) b (n - 1) := by
  obtain ⟨l, hnodup, rfl, hmem⟩ := h
  refine ⟨l.erase a, hnodup.erase a, length_erase_of_mem ((hmem a).mpr ha), fun x => ?_⟩
  rw [hnodup.mem_erase_iff, hmem, Function.update_apply]
  split
  case isTrue hx => exact iff_of_false (fun h => h.1 hx) (nofun)
  case isFalse hx => exact and_iff_right hx

end Census
