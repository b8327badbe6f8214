import Mathlib

/-!
# What is allocated and freed

A log of what was allocated and of what was freed, beside what is live: `Balanced` says that nothing is
allocated or freed twice, and that what was allocated is live or was freed. The rules follow one
allocation and one free.
-/

namespace Allocations
open List

variable {α : Type*} {live live' : α → Prop} {allocated freed : List α} {a : α}

structure Balanced (live : α → Prop) (allocated freed : List α) : Prop where
  allocatedOnce : allocated.Nodup
  freedOnce : freed.Nodup
  dead : ∀ a ∈ freed, ¬ live a
  accounted : ∀ a, a ∈ allocated ↔ live a ∨ a ∈ freed

section
variable (h : Balanced live allocated freed)
include h

theorem Balanced.congr (hlive : ∀ a, live' a ↔ live a) :
    Balanced live' allocated freed where
  allocatedOnce := h.allocatedOnce
  freedOnce := h.freedOnce
  dead a ha := fun hl => h.dead a ha ((hlive a).mp hl)
  accounted a := by rw [hlive, h.accounted]

theorem Balanced.allocate (ha : a ∉ allocated)
    (hlive : ∀ b, live' b ↔ live b ∨ b = a) : Balanced live' (a :: allocated) freed where
  allocatedOnce := nodup_cons.mpr ⟨ha, h.allocatedOnce⟩
  freedOnce := h.freedOnce
  dead b hb := by
    rw [hlive, not_or]
    refine ⟨h.dead b hb, ?_⟩
    rintro rfl
    exact ha ((h.accounted b).mpr (.inr hb))
  accounted b := by
    rw [hlive, mem_cons, h.accounted]
    tauto

theorem Balanced.free (ha : live a)
    (hlive : ∀ b, live' b ↔ live b ∧ b ≠ a) : Balanced live' allocated (a :: freed) where
  allocatedOnce := h.allocatedOnce
  freedOnce := nodup_cons.mpr ⟨fun hmem => h.dead a hmem ha, h.freedOnce⟩
  dead b hb := by
    rw [hlive]
    rintro ⟨hl, hne⟩
    exact h.dead b (mem_of_ne_of_mem hne hb) hl
  accounted b := by
    rw [hlive, h.accounted, mem_cons]
    constructor
    · rintro (hl | hb)
      · by_cases hba : b = a
        · exact .inr (.inl hba)
        · exact .inl ⟨hl, hba⟩
      · exact .inr (.inr hb)
    · rintro (⟨hl, -⟩ | rfl | hb)
      · exact .inl hl
      · exact .inl ha
      · exact .inr hb

theorem Balanced.pass (ha : a ∉ allocated) :
    Balanced live (a :: allocated) (a :: freed) := by
  have hdead : ¬ live a := fun hl => ha ((h.accounted a).mpr (.inl hl))
  have hboth : Balanced (fun b => live b ∨ b = a) (a :: allocated) freed := h.allocate ha fun _ => Iff.rfl
  refine hboth.free (.inr rfl) fun b => ⟨fun hl => ⟨.inl hl, ?_⟩, fun hb => hb.1.resolve_right hb.2⟩
  rintro rfl
  exact hdead hl

theorem Balanced.perm (hnone : ∀ a, ¬ live a) :
    allocated.Perm freed := by
  refine (perm_ext_iff_of_nodup h.allocatedOnce h.freedOnce).mpr fun a => ?_
  rw [h.accounted]
  exact or_iff_right (hnone a)

end

end Allocations
