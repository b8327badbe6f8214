import Proskrnl.Library.Intervals
import Proskrnl.Library.Slots
import Proskrnl.Mm.Virtual

/-!
# The layout of an address space

Reservations are whole pages of user space, in ascending order and apart. What the searches of
`kernel/mm/virtual.c` answer over such a list.
-/

namespace Proskrnl.Mm

open Intervals (Laid Free)

structure Vad.Placed (vad : Vad) : Prop where
  base_dvd : vad.base % pageSize = 0
  size_dvd : vad.size % pageSize = 0
  pos : 0 < vad.size
  lowest : miLowestUserAddress ≤ vad.base
  limit : vad.limit ≤ kiUserSpaceLimit

structure Tiled (vads : List Vad) : Prop where
  placed : ∀ vad ∈ vads, vad.Placed
  laid : Laid Vad.base Vad.limit vads

structure Vad.Holds (vad : Vad) (page : Nat) : Prop where
  base : vad.base ≤ page
  limit : page < vad.limit
  dvd : page % pageSize = 0

variable {vads : List Vad} {vad : Vad} {address base size : Nat}

theorem Vad.Placed.base_lt_limit (h : vad.Placed) : vad.base < vad.limit := by
  have := h.pos
  unfold Vad.limit
  omega

theorem Vad.Holds.lt (h : vad.Holds address) (hp : vad.Placed) : address < kiUserSpaceLimit :=
  lt_of_lt_of_le h.limit hp.limit

theorem miFindVad_some (h : miFindVad vads address = some vad) :
    vad ∈ vads ∧ vad.base ≤ address ∧ address < vad.limit := by
  induction vads with
  | nil => cases h
  | cons v vads ih =>
    rw [miFindVad] at h
    split at h
    · rename_i hin
      cases h
      exact ⟨List.mem_cons_self, hin⟩
    · split at h
      · cases h
      · obtain ⟨hmem, hin⟩ := ih h
        exact ⟨.tail _ hmem, hin⟩

theorem Laid.free_of_miRangeIsFree (h : Laid Vad.base Vad.limit vads)
    (hfree : miRangeIsFree vads base size = true) :
    Free Vad.base Vad.limit vads base (base + size) := by
  induction vads with
  | nil => intro a ha; cases ha
  | cons v vads ih =>
    obtain ⟨hv, hall, hl⟩ := Intervals.laid_cons.mp h
    rw [miRangeIsFree] at hfree
    split at hfree
    · cases hfree
    · rename_i hapart
      split at hfree
      · rename_i hbelow
        rintro a (_ | ⟨_, ha⟩)
        · exact .inr hbelow
        · have := hall a ha
          exact .inr (by omega)
      · rintro a (_ | ⟨_, ha⟩)
        · omega
        · exact ih hl hfree a ha

theorem miRoundDown_dvd (n : Nat) : miRoundDown n pageSize % pageSize = 0 := by
  simp only [miRoundDown, pageSize]
  omega

theorem miRoundUp_dvd (n align : Nat) : miRoundUp n align % align = 0 := by
  simp [miRoundUp]

variable {n align : Nat} {v : Vad}

theorem le_miRoundUp (hpos : 0 < align) (h : n + align ≤ 2 ^ 64) :
    n ≤ miRoundUp n align := by
  have hu : uint64 (n + align - 1) = n + align - 1 := Nat.mod_eq_of_lt (by omega)
  have hdiv := Nat.div_add_mod (n + align - 1) align
  have hmod := Nat.mod_lt (n + align - 1) hpos
  rw [miRoundUp, hu, Nat.mul_comm]
  omega

theorem freeRegionFrom_dvd (vads : List Vad) (size : Nat) (hn : n % align = 0) :
    freeRegionFrom size align vads n % align = 0 := by
  induction vads generalizing n with
  | nil => exact hn
  | cons v vads ih =>
    rw [freeRegionFrom]
    split
    · exact hn
    · apply ih
      split
      · exact miRoundUp_dvd _ _
      · exact hn

theorem le_freeRegionFrom (size n : Nat) (hpos : 0 < align) (halign : align ≤ 2 ^ 63)
    (hlimit : ∀ v ∈ vads, v.limit ≤ kiUserSpaceLimit) : n ≤ freeRegionFrom size align vads n := by
  induction vads generalizing n with
  | nil => exact le_refl _
  | cons v vads ih =>
    have ih := fun n => ih (n := n) fun w hw => hlimit w (.tail _ hw)
    have hv := hlimit v List.mem_cons_self
    rw [freeRegionFrom]
    split
    · exact le_refl _
    · split
      · have hup : v.limit ≤ miRoundUp v.limit align :=
          le_miRoundUp hpos (by simp only [kiUserSpaceLimit] at hv; omega)
        have := ih (miRoundUp v.limit align)
        omega
      · exact ih n

theorem free_freeRegionFrom (h : Laid Vad.base Vad.limit vads)
    (hpos : 0 < align) (halign : align ≤ 2 ^ 63) (hlimit : ∀ v ∈ vads, v.limit ≤ kiUserSpaceLimit) :
    Free Vad.base Vad.limit vads (freeRegionFrom size align vads n)
      (freeRegionFrom size align vads n + size) := by
  induction vads generalizing n with
  | nil => intro a ha; cases ha
  | cons v vads ih =>
    obtain ⟨hv, hall, hl⟩ := Intervals.laid_cons.mp h
    have hlimit' : ∀ w ∈ vads, w.limit ≤ kiUserSpaceLimit := fun w hw => hlimit w (.tail _ hw)
    have hvl := hlimit v List.mem_cons_self
    rw [freeRegionFrom]
    split
    · rename_i hfits
      rintro a (_ | ⟨_, ha⟩)
      · exact .inr hfits
      · have := hall a ha
        exact .inr (by omega)
    · rintro a (_ | ⟨_, ha⟩)
      · left
        split
        · have hup : v.limit ≤ miRoundUp v.limit align :=
            le_miRoundUp hpos (by simp only [kiUserSpaceLimit] at hvl; omega)
          have := le_freeRegionFrom size (miRoundUp v.limit align) hpos halign hlimit'
          omega
        · have := le_freeRegionFrom size n hpos halign hlimit'
          omega
      · exact ih hl hlimit' a ha

theorem Tiled.findFree (h : Tiled vads) {limitLow limitHigh : Nat} (halign : align ≤ 2 ^ 63)
    (hdvd : align % pageSize = 0)
    (hne : miFindFreeRegion vads size limitLow limitHigh align ≠ 0) :
    let base := miFindFreeRegion vads size limitLow limitHigh align
    Free Vad.base Vad.limit vads base (base + size) ∧ base % pageSize = 0 ∧
      miLowestUserAddress ≤ base ∧ base + size ≤ kiUserSpaceLimit := by
  simp only [miFindFreeRegion] at hne ⊢
  have hpos : 0 < max align miAllocationGranularity := by simp [miAllocationGranularity]
  have hle : max align miAllocationGranularity ≤ 2 ^ 63 := by
    simp only [miAllocationGranularity]
    omega
  have hdvd' : max align miAllocationGranularity % pageSize = 0 := by
    rcases max_choice align miAllocationGranularity with hmax | hmax
    · rw [hmax]; exact hdvd
    · rw [hmax]; rfl
  have hlow : miAllocationGranularity ≤ max align miAllocationGranularity := le_max_right _ _
  generalize max align miAllocationGranularity = a at hpos hle hdvd' hlow hne ⊢
  have hlimits : ∀ v ∈ vads, v.limit ≤ kiUserSpaceLimit := fun v hv => (h.placed v hv).limit
  generalize (if limitHigh = 0 then kiUserSpaceLimit - 1 else limitHigh) = high at hne ⊢
  split at hne
  · rename_i hin
    rw [if_pos hin]
    have hmod := freeRegionFrom_dvd vads size
      (miRoundUp_dvd (max miLowestUserAddress limitLow) a)
    obtain ⟨k, hk⟩ := Nat.dvd_of_mod_eq_zero hmod
    refine ⟨free_freeRegionFrom h.laid hpos hle hlimits, ?_, ?_, hin.2⟩
    · obtain ⟨j, hj⟩ := Nat.dvd_of_mod_eq_zero hdvd'
      rw [hk, hj, Nat.mul_assoc]
      exact Nat.mul_mod_right _ _
    · have hkpos : 0 < k := by
        rcases Nat.eq_zero_or_pos k with hk0 | hk0
        · exact absurd (by rw [hk, hk0, Nat.mul_zero]) hne
        · exact hk0
      rw [hk]
      exact le_trans hlow (Nat.le_mul_of_pos_right a hkpos)
  · exact absurd rfl hne

theorem mem_putVad (h : v ∈ putVad vads vad) : v = vad ∨ v ∈ vads ∧ v.base ≠ vad.base :=
  Intervals.mem_put h

theorem mem_removeVad : v ∈ removeVad vads vad ↔ v ∈ vads ∧ v.base ≠ vad.base := by
  simp [removeVad]

theorem mem_miInsertVad : v ∈ miInsertVad vads vad ↔ v = vad ∨ v ∈ vads :=
  List.mem_orderedInsert _

theorem putVad_mem (hmem : vad ∈ vads) {vad' : Vad} (hbase : vad'.base = vad.base) :
    vad' ∈ putVad vads vad' :=
  List.mem_map.mpr ⟨vad, hmem, by rw [if_pos hbase.symm]⟩

theorem putVad_of_ne (hmem : v ∈ vads) (hne : v.base ≠ vad.base) :
    v ∈ putVad vads vad :=
  List.mem_map.mpr ⟨v, hmem, by rw [if_neg hne]⟩

theorem Tiled.put (h : Tiled vads) (hmem : vad ∈ vads) {vad' : Vad} (hbase : vad'.base = vad.base)
    (hsize : vad'.size = vad.size) : Tiled (putVad vads vad') := by
  have hlimit : vad'.limit = vad.limit := by rw [Vad.limit, hbase, hsize]; rfl
  have hp := h.placed vad hmem
  refine ⟨?_, h.laid.put ?_ ?_⟩
  · intro v hv
    rcases mem_putVad hv with rfl | ⟨hv, -⟩
    · exact ⟨by rw [hbase]; exact hp.base_dvd, by rw [hsize]; exact hp.size_dvd,
        by rw [hsize]; exact hp.pos, by rw [hbase]; exact hp.lowest, by rw [hlimit]; exact hp.limit⟩
    · exact h.placed v hv
  · rw [hbase, hlimit]
    exact hp.base_lt_limit
  · rw [hbase, hlimit]
    exact h.laid.free_filter_ne hmem

theorem Tiled.putVad_self (h : Tiled vads) (hmem : vad ∈ vads) : putVad vads vad = vads := by
  simp only [putVad]
  conv_rhs => rw [← List.map_id vads]
  refine List.map_congr_left fun v hv => ?_
  by_cases hbase : v.base = vad.base
  · rw [if_pos hbase, h.laid.eq_of_lo hmem hv hbase.symm]; rfl
  · rw [if_neg hbase]; rfl

section Spaces

variable {m : Machine} {p q : Nat} {space space' : Space}

theorem space_setSpace (h : m.space p = some space) :
    (m.setSpace p space').space p = some space' :=
  Slots.join_set_self (Slots.lt_length h) _

theorem space_setSpace_of_ne (h : q ≠ p) : (m.setSpace p space').space q = m.space q :=
  Slots.join_set_of_ne h _

end Spaces

end Proskrnl.Mm
