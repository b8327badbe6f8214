import Proskrnl.Mm.Layout

/-!
# Where memory is placed

`MiFindFreeRegion` as a search: over reservations in ascending order it finds the lowest address that
meets the request, if there is one. The limits are those of `MiCaptureExtendedParams` and
`MiZeroBitsPlacementLimit`; the sums and the shifts have 64 bits, as in `kernel/mm/virtual.c`.
-/

namespace Proskrnl.Mm

open Intervals (Laid Free)

/-! ## The limits -/

/-- `MEM_ADDRESS_REQUIREMENTS` -/
structure AddressRequirements where
  lowestStartingAddress : Nat
  highestEndingAddress : Nat
  alignment : Nat
  deriving DecidableEq

/-- Its type, what a probed read finds behind its pointer, and its value. -/
structure MemExtendedParameter where
  type : Nat
  pointer : Option AddressRequirements
  value : Nat
  deriving DecidableEq

structure MiExtendedParams where
  limitLow : Nat := 0
  limitHigh : Nat := 0
  align : Nat := 0
  attributes : Nat := 0
  machine : Nat := 0
  deriving DecidableEq

/-- What `MiCaptureExtendedParams` takes over of address requirements. -/
def captureRequirements (r : AddressRequirements) (out : MiExtendedParams) :
    Option MiExtendedParams :=
  let limitLow := if r.lowestStartingAddress ≠ 0 then r.lowestStartingAddress else out.limitLow
  if r.alignment ≠ 0 ∧ (r.alignment &&& (r.alignment - 1) ≠ 0 ∨
      r.alignment - 1 < miAllocationGranularity - 1) then none
  else if r.lowestStartingAddress ≠ 0 ∧ (kiUserSpaceLimit ≤ r.lowestStartingAddress ∨
      r.lowestStartingAddress &&& (miAllocationGranularity - 1) ≠ 0) then none
  else if r.highestEndingAddress ≠ 0 ∧ (kiUserSpaceLimit < r.highestEndingAddress ∨
      r.highestEndingAddress ≤ limitLow ∨
      (r.highestEndingAddress + 1) &&& (pageSize - 1 - 1) ≠ 0) then none
  else some
    { out with
      align := if r.alignment ≠ 0 then r.alignment else out.align
      limitLow
      limitHigh := if r.highestEndingAddress ≠ 0 then r.highestEndingAddress else out.limitHigh }

/-- The loop of `MiCaptureExtendedParams`; a type may stand there once. -/
def captureFrom : List Nat → List MemExtendedParameter → MiExtendedParams → Option MiExtendedParams
  | _, [], out => some out
  | present, parameter :: rest, out =>
    if 32 ≤ parameter.type ∨ parameter.type ∈ present then none
    else
      let present := parameter.type :: present
      match parameter.type with
      | 1 => do
        let requirements ← parameter.pointer
        captureFrom present rest (← captureRequirements requirements out)
      | 5 => captureFrom present rest { out with attributes := ulong parameter.value }
      | 6 => captureFrom present rest { out with machine := parameter.value % 2 ^ 16 }
      | 2 | 3 | 4 => captureFrom present rest out
      | _ => none

def miCaptureExtendedParams (parameters : List MemExtendedParameter) : Option MiExtendedParams :=
  captureFrom [] parameters {}

/-- A rung of the search for the highest set bit: the shift and what is left of the argument. -/
def shiftRung (n : Nat) : Nat × Nat → Nat × Nat
  | (shift, zeroBits) => if zeroBits >>> n ≠ 0 then (shift - n, zeroBits >>> n) else (shift, zeroBits)

/-- The shift of `MiZeroBitsLimit`. -/
def zeroBitsShift (zeroBits : Nat) : Nat :=
  if zeroBits < 32 then 32 + zeroBits
  else
    (shiftRung 1 (shiftRung 2 (shiftRung 4 (shiftRung 8 (shiftRung 16 (shiftRung 32
      (63, zeroBits))))))).1

/-- None for `STATUS_INVALID_PARAMETER_3`. -/
def miZeroBitsPlacementLimit (zeroBits : Nat) : Option Nat :=
  if (21 < zeroBits ∧ zeroBits < 32) ∨
      (32 < zeroBits ∧ zeroBits < miAllocationGranularity - 1) then none
  else some (if zeroBits = 0 then 0 else (2 ^ 64 - 1) >>> zeroBitsShift zeroBits)

/-- The limits that callers hand to `MiFindFreeRegion`. -/
inductive PlacementLimits : Nat → Nat → Prop
  | captured {parameters : List MemExtendedParameter} {out : MiExtendedParams} :
    miCaptureExtendedParams parameters = some out → PlacementLimits out.limitLow out.limitHigh
  | zeroBits {zeroBits limitHigh : Nat} : zeroBits < 2 ^ 64 →
    miZeroBitsPlacementLimit zeroBits = some limitHigh → PlacementLimits 0 limitHigh

/-! ## The search -/

/-- The walk of `MiFindFreeRegion`, in 64 bits. -/
def placeFrom (size align : Nat) : List Vad → Nat → Nat
  | [], candidate => candidate
  | vad :: rest, candidate =>
    if uint64 (candidate + size) ≤ vad.base then candidate
    else placeFrom size align rest
      (if candidate < uint64 (vad.base + vad.size) then
        miRoundUp (uint64 (vad.base + vad.size)) align else candidate)

/-- `MiFindFreeRegion`, in 64 bits; 0 is no region. -/
def miFindFreeRegion64 (vads : List Vad) (size limitLow limitHigh align : Nat) : Nat :=
  let align := if align < miAllocationGranularity then miAllocationGranularity else align
  let limitHigh := if limitHigh = 0 then kiUserSpaceLimit - 1 else limitHigh
  let floor := if miLowestUserAddress < limitLow then limitLow else miLowestUserAddress
  let candidate := placeFrom size align vads (miRoundUp floor align)
  if uint64 (uint64 (candidate + size) + 2 ^ 64 - 1) ≤ limitHigh ∧
      uint64 (candidate + size) ≤ kiUserSpaceLimit then candidate
  else 0

structure Fits (vads : List Vad) (size limitLow limitHigh align address : Nat) : Prop where
  aligned : address % max align 0x10000 = 0
  low : max limitLow 0x10000 ≤ address
  free : Free Vad.base Vad.limit vads address (address + size)
  high : limitHigh ≠ 0 → address + (size - 1) ≤ limitHigh
  user : address + (size - 1) < kiUserSpaceLimit

/-- The limit that a zero-bits argument stands for: a count of leading zero bits of 32, or the bits up
to the highest one of a mask. -/
structure ZeroBitsLimit (zeroBits limit : Nat) : Prop where
  none : zeroBits = 0 → limit = 0
  count : 0 < zeroBits → zeroBits < 32 → IsGreatest {x | x / 2 ^ (32 - zeroBits) = 0} limit
  mask : 32 ≤ zeroBits → ∀ i, limit.testBit i = true ↔ ∃ j, i ≤ j ∧ zeroBits.testBit j = true

section
variable {vads : List Vad} {size limitLow limitHigh align n a : Nat}

theorem miRoundUp_le (hpos : 0 < align) (ha : a % align = 0) (hle : n ≤ a) :
    miRoundUp n align ≤ a := by
  obtain ⟨k, rfl⟩ := Nat.dvd_of_mod_eq_zero ha
  rw [miRoundUp, uint64, Nat.mul_comm align k]
  refine Nat.mul_le_mul_right align ?_
  have hmod : (n + align - 1) % 2 ^ 64 ≤ n + align - 1 := Nat.mod_le _ _
  have hdiv : (n + align - 1) % 2 ^ 64 / align < k + 1 := by
    rw [Nat.div_lt_iff_lt_mul hpos, Nat.add_mul, Nat.mul_comm k align]
    omega
  omega

theorem freeRegionFrom_le (hpos : 0 < align) (ha : a % align = 0) (hn : n ≤ a)
    (hfree : Free Vad.base Vad.limit vads a (a + size)) : freeRegionFrom size align vads n ≤ a := by
  induction vads generalizing n with
  | nil => exact hn
  | cons v vads ih =>
    have hrest : Free Vad.base Vad.limit vads a (a + size) := hfree.subset fun w hw => .tail _ hw
    rw [freeRegionFrom]
    split
    case isTrue => exact hn
    case isFalse hmeets =>
      apply ih _ hrest
      split
      case isFalse => exact hn
      case isTrue =>
        -- `v` begins before `n + size`, so an address from `n` on is free only behind it
        have hbehind : v.limit ≤ a := by
          rcases hfree v List.mem_cons_self with h | h <;> omega
        exact miRoundUp_le hpos ha hbehind

theorem miRoundUp_lt (hn : n ≤ kiUserSpaceLimit) (hpos : 0 < align) (halign : align ≤ 2 ^ 63) :
    miRoundUp n align < 2 ^ 63 + 2 ^ 47 := by
  have hdiv := Nat.div_mul_le_self (uint64 (n + align - 1)) align
  have hmod : uint64 (n + align - 1) ≤ n + align - 1 := Nat.mod_le _ _
  rw [kiUserSpaceLimit] at hn
  rw [miRoundUp]
  omega

theorem placeFrom_eq (hsize : size ≤ kiUserSpaceLimit) (hpos : 0 < align) (halign : align ≤ 2 ^ 63)
    (hlimit : ∀ v ∈ vads, v.limit ≤ kiUserSpaceLimit) (hn : n < 2 ^ 63 + 2 ^ 47) :
    placeFrom size align vads n = freeRegionFrom size align vads n ∧
      freeRegionFrom size align vads n < 2 ^ 63 + 2 ^ 47 := by
  induction vads generalizing n with
  | nil => exact ⟨rfl, hn⟩
  | cons v vads ih =>
    have hv := hlimit v List.mem_cons_self
    have hsum : uint64 (n + size) = n + size := by
      rw [kiUserSpaceLimit] at hsize
      exact Nat.mod_eq_of_lt (by omega)
    have hend : uint64 (v.base + v.size) = v.limit := by
      rw [Vad.limit, kiUserSpaceLimit] at hv
      exact Nat.mod_eq_of_lt (by omega)
    rw [placeFrom, freeRegionFrom, hsum, hend]
    split
    case isTrue => exact ⟨rfl, hn⟩
    case isFalse =>
      apply ih fun w hw => hlimit w (.tail _ hw)
      split
      · exact miRoundUp_lt hv hpos halign
      · exact hn

theorem miFindFreeRegion64_eq (hsize : size ≤ kiUserSpaceLimit) (hpos : 0 < size)
    (halign : align ≤ 2 ^ 63) (hlimit : ∀ v ∈ vads, v.limit ≤ kiUserSpaceLimit)
    (hlow : limitLow ≤ kiUserSpaceLimit) :
    miFindFreeRegion64 vads size limitLow limitHigh align =
      miFindFreeRegion vads size limitLow limitHigh align := by
  have hmax : (if align < miAllocationGranularity then miAllocationGranularity else align) =
      max align miAllocationGranularity := by
    split <;> omega
  have hfloor : (if miLowestUserAddress < limitLow then limitLow else miLowestUserAddress) =
      max miLowestUserAddress limitLow := by
    split <;> omega
  have hbounds : 0 < max align miAllocationGranularity ∧
      max align miAllocationGranularity ≤ 2 ^ 63 := by
    rw [miAllocationGranularity]
    omega
  rw [miFindFreeRegion64, miFindFreeRegion]
  simp only [hmax, hfloor]
  generalize max align miAllocationGranularity = al at hbounds ⊢
  have hstart : miRoundUp (max miLowestUserAddress limitLow) al < 2 ^ 63 + 2 ^ 47 :=
    miRoundUp_lt (by rw [miLowestUserAddress, kiUserSpaceLimit] at *; omega) hbounds.1 hbounds.2
  obtain ⟨heq, hlt⟩ := placeFrom_eq hsize hbounds.1 hbounds.2 hlimit hstart
  rw [heq]
  generalize freeRegionFrom size al vads (miRoundUp (max miLowestUserAddress limitLow) al) = c at hlt ⊢
  have hsum : uint64 (c + size) = c + size := by
    rw [kiUserSpaceLimit] at hsize
    exact Nat.mod_eq_of_lt (by omega)
  have hlast : uint64 (c + size + 2 ^ 64 - 1) = c + size - 1 := by
    rw [kiUserSpaceLimit] at hsize
    rw [uint64]
    omega
  rw [hsum, hlast]

theorem captureRequirements_limitLow {r : AddressRequirements} {out out' : MiExtendedParams}
    (hout : out.limitLow < kiUserSpaceLimit) (h : captureRequirements r out = some out') :
    out'.limitLow < kiUserSpaceLimit := by
  rw [captureRequirements] at h
  generalize hlimit : (if r.lowestStartingAddress ≠ 0 then r.lowestStartingAddress
    else out.limitLow) = limitLow at h
  split at h
  · cases h
  · split at h
    · cases h
    case isFalse hlow =>
      split at h
      · cases h
      · cases h
        change limitLow < kiUserSpaceLimit
        split at hlimit <;> omega

theorem captureFrom_limitLow {present : List Nat} {parameters : List MemExtendedParameter}
    {out out' : MiExtendedParams} (hout : out.limitLow < kiUserSpaceLimit)
    (h : captureFrom present parameters out = some out') : out'.limitLow < kiUserSpaceLimit := by
  induction parameters generalizing present out with
  | nil =>
    cases h
    exact hout
  | cons parameter rest ih =>
    rw [captureFrom] at h
    split at h
    · cases h
    · dsimp only at h
      split at h
      case h_1 =>
        obtain ⟨requirements, -, h⟩ := Option.bind_eq_some_iff.mp h
        obtain ⟨out1, hout1, h⟩ := Option.bind_eq_some_iff.mp h
        exact ih (captureRequirements_limitLow hout hout1) h
      case h_2 =>
        refine ih ?_ h
        exact hout
      case h_3 =>
        refine ih ?_ h
        exact hout
      case h_4 => exact ih hout h
      case h_5 => exact ih hout h
      case h_6 => exact ih hout h
      case h_7 => cases h

theorem PlacementLimits.low_lt (h : PlacementLimits limitLow limitHigh) :
    limitLow < kiUserSpaceLimit := by
  cases h with
  | captured h => exact captureFrom_limitLow (by decide) h
  | zeroBits => decide

/-! ## Zero bits -/

/-- What holds between two rungs: the number that is left has so many bits, and the position of its
highest bit and the shift add up. -/
structure ShiftInv (highest bits : Nat) (s : Nat × Nat) : Prop where
  pos : 0 < s.2
  lt : s.2 < 2 ^ bits
  sum : s.1 + highest = 63 + s.2.log2
  shift : bits ≤ s.1 + 1

theorem ShiftInv.rung {highest k : Nat} {s : Nat × Nat} (hk : 0 < k)
    (h : ShiftInv highest (2 * k) s) : ShiftInv highest k (shiftRung k s) := by
  obtain ⟨shift, z⟩ := s
  obtain ⟨hpos, hlt, hsum, hshift⟩ := h
  rw [shiftRung, Nat.shiftRight_eq_div_pow]
  split
  case isTrue hne =>
    have hpow : 2 ^ k ≤ z := by
      by_contra hsmall
      exact hne (Nat.div_eq_of_lt (by omega))
    have hlog : k ≤ z.log2 := (Nat.le_log2 (by omega)).mpr hpow
    have hshifted : (z / 2 ^ k).log2 = z.log2 - k := by
      rw [Nat.log2_eq_log_two, Nat.log2_eq_log_two, Nat.log_div_base_pow]
    refine ⟨Nat.pos_of_ne_zero hne, ?_, ?_, ?_⟩
    · rw [Nat.div_lt_iff_lt_mul (Nat.two_pow_pos k), ← Nat.pow_add, ← Nat.two_mul]
      exact hlt
    · change shift - k + highest = 63 + (z / 2 ^ k).log2
      change shift + highest = 63 + z.log2 at hsum
      change 2 * k ≤ shift + 1 at hshift
      omega
    · change k ≤ shift - k + 1
      change 2 * k ≤ shift + 1 at hshift
      omega
  case isFalse hzero =>
    refine ⟨hpos, ?_, hsum, ?_⟩
    · exact (Nat.div_eq_zero_iff_lt (Nat.two_pow_pos k)).mp (Decidable.not_not.mp hzero)
    · change 2 * k ≤ shift + 1 at hshift
      change k ≤ shift + 1
      omega

theorem zeroBitsShift_add_log2 {z : Nat} (hlow : 32 ≤ z) (hlt : z < 2 ^ 64) :
    zeroBitsShift z + z.log2 = 63 := by
  have hstart : ShiftInv z.log2 (2 * 32) (63, z) := ⟨by omega, hlt, rfl, Nat.le_refl 64⟩
  have hend := ((((((hstart.rung (by decide)).rung (k := 16) (by decide)).rung (k := 8)
    (by decide)).rung (k := 4) (by decide)).rung (k := 2) (by decide)).rung (k := 1) (by decide))
  rw [zeroBitsShift, if_neg (by omega)]
  have hsum := hend.sum
  have hone := hend.lt
  have hpos := hend.pos
  generalize shiftRung 1 (shiftRung 2 (shiftRung 4 (shiftRung 8 (shiftRung 16 (shiftRung 32
    (63, z)))))) = s at hsum hone hpos ⊢
  have hs : s.2 = 1 := by omega
  rw [hs] at hsum
  have hlog : Nat.log2 1 = 0 := by decide
  omega

theorem exists_testBit_le_iff {z i : Nat} (hpos : z ≠ 0) :
    (∃ j, i ≤ j ∧ z.testBit j = true) ↔ i ≤ z.log2 := by
  constructor
  · rintro ⟨j, hij, hbit⟩
    have hj : 2 ^ j ≤ z := Nat.ge_two_pow_of_testBit hbit
    exact hij.trans ((Nat.le_log2 hpos).mpr hj)
  · intro h
    exact ⟨z.log2, h, Nat.testBit_log2 hpos⟩

theorem miZeroBitsPlacementLimit_spec {zeroBits limit : Nat} (hlt : zeroBits < 2 ^ 64)
    (h : miZeroBitsPlacementLimit zeroBits = some limit) : ZeroBitsLimit zeroBits limit := by
  rw [miZeroBitsPlacementLimit] at h
  split at h
  · cases h
  · obtain rfl := Option.some.inj h
    refine ⟨fun hzero => if_pos hzero, fun hpos hcount => ?_, fun hmask i => ?_⟩
    · have hpow : (2 : Nat) ^ 64 = 2 ^ (32 + zeroBits) * 2 ^ (32 - zeroBits) := by
        rw [← Nat.pow_add]
        congr 1
        omega
      have hvalue : (2 ^ 64 - 1) >>> zeroBitsShift zeroBits = 2 ^ (32 - zeroBits) - 1 := by
        have hfloor := Nat.mul_sub_div 0 (2 ^ (32 + zeroBits)) (2 ^ (32 - zeroBits))
          (by rw [← hpow]; decide)
        rw [Nat.zero_div] at hfloor
        rw [zeroBitsShift, if_pos hcount, Nat.shiftRight_eq_div_pow, hpow]
        exact hfloor
      rw [if_neg (by omega), hvalue]
      have htwo := Nat.two_pow_pos (32 - zeroBits)
      refine ⟨Nat.div_eq_of_lt (by omega), fun x hx => ?_⟩
      have hx := (Nat.div_eq_zero_iff_lt htwo).mp hx
      omega
    · have hsum := zeroBitsShift_add_log2 hmask hlt
      have hlog : zeroBits.log2 < 64 := (Nat.log2_lt (by omega)).mpr hlt
      rw [if_neg (by omega), Nat.testBit_shiftRight, Nat.testBit_two_pow_sub_one,
        exists_testBit_le_iff (by omega), decide_eq_true_iff]
      omega

/-! ## The lowest region -/

section
variable (hlaid : Laid Vad.base Vad.limit vads) (hlimit : ∀ v ∈ vads, v.limit ≤ kiUserSpaceLimit)
  (hpos : 0 < size) (halign : align ≤ 2 ^ 63) (hlow : limitLow < kiUserSpaceLimit)

def stopOf (vads : List Vad) (size limitLow align : Nat) : Nat :=
  freeRegionFrom size (max align miAllocationGranularity) vads
    (miRoundUp (max miLowestUserAddress limitLow) (max align miAllocationGranularity))

theorem granularity_bounds (halign : align ≤ 2 ^ 63) :
    0 < max align miAllocationGranularity ∧ max align miAllocationGranularity ≤ 2 ^ 63 := by
  rw [miAllocationGranularity]
  omega

include halign hlow in
theorem floor_le : max miLowestUserAddress limitLow ≤
    miRoundUp (max miLowestUserAddress limitLow) (max align miAllocationGranularity) := by
  obtain ⟨hpos, hle⟩ := granularity_bounds halign
  refine le_miRoundUp hpos ?_
  rw [kiUserSpaceLimit] at hlow
  rw [miLowestUserAddress]
  omega

include hlaid hlimit halign hlow in
theorem stopOf_fits (size : Nat) :
    stopOf vads size limitLow align % max align miAllocationGranularity = 0 ∧
    max miLowestUserAddress limitLow ≤ stopOf vads size limitLow align ∧
    Free Vad.base Vad.limit vads (stopOf vads size limitLow align)
      (stopOf vads size limitLow align + size) := by
  obtain ⟨hapos, hale⟩ := granularity_bounds halign
  have hfloor := floor_le halign hlow
  refine ⟨freeRegionFrom_dvd vads size (miRoundUp_dvd _ _), ?_,
    free_freeRegionFrom hlaid hapos hale hlimit⟩
  exact hfloor.trans (le_freeRegionFrom size _ hapos hale hlimit)

theorem stopOf_le (halign : align ≤ 2 ^ 63)
    (ha : Fits vads size limitLow limitHigh align a) : stopOf vads size limitLow align ≤ a := by
  obtain ⟨hapos, -⟩ := granularity_bounds halign
  have hlow := ha.low
  refine freeRegionFrom_le hapos ha.aligned (miRoundUp_le hapos ha.aligned ?_) ha.free
  rw [miLowestUserAddress]
  omega

theorem miFindFreeRegion_eq (vads : List Vad) (size limitLow limitHigh align : Nat) :
    miFindFreeRegion vads size limitLow limitHigh align =
      if stopOf vads size limitLow align + size - 1 ≤
            (if limitHigh = 0 then kiUserSpaceLimit - 1 else limitHigh) ∧
          stopOf vads size limitLow align + size ≤ kiUserSpaceLimit then
        stopOf vads size limitLow align
      else 0 := rfl

include hlaid hlimit hpos halign hlow in
theorem isLeast_miFindFreeRegion
    (hne : miFindFreeRegion vads size limitLow limitHigh align ≠ 0) :
    IsLeast {a | Fits vads size limitLow limitHigh align a}
      (miFindFreeRegion vads size limitLow limitHigh align) := by
  obtain ⟨haligned, hfloor, hfree⟩ := stopOf_fits hlaid hlimit halign hlow size
  rw [miFindFreeRegion_eq] at hne ⊢
  obtain ⟨hin, -⟩ := ite_ne_right_iff.mp hne
  rw [if_pos hin]
  obtain ⟨hhigh, huser⟩ := hin
  refine ⟨⟨haligned, ?_, hfree, fun hnone => ?_, ?_⟩, fun a ha => stopOf_le halign ha⟩
  · rw [miLowestUserAddress] at hfloor
    omega
  · rw [if_neg hnone] at hhigh
    omega
  · omega

include hlaid hlimit hpos halign hlow in
theorem miFindFreeRegion_ne_zero (ha : Fits vads size limitLow limitHigh align a) :
    miFindFreeRegion vads size limitLow limitHigh align ≠ 0 := by
  obtain ⟨-, hfloor, -⟩ := stopOf_fits hlaid hlimit halign hlow size
  have hle := stopOf_le halign ha
  have huser := ha.user
  rw [miFindFreeRegion_eq, if_pos]
  · rw [miLowestUserAddress] at hfloor
    omega
  · refine ⟨?_, by omega⟩
    split
    · omega
    case isFalse hhigh =>
      have hlast := ha.high hhigh
      omega

end

end

/-- `MiFindFreeRegion` finds the lowest address that fits, and 0 only where there is none; and the
limit of a zero-bits argument is the one its bits stand for. -/
theorem miFindFreeRegion64_lowest (vads : List Vad) (hlaid : Laid Vad.base Vad.limit vads)
    (huser : ∀ v ∈ vads, v.limit ≤ kiUserSpaceLimit) (size : Nat) (hpos : 0 < size)
    (hsize : size ≤ kiUserSpaceLimit) (limitLow limitHigh align : Nat)
    (hlimits : PlacementLimits limitLow limitHigh)
    (halign : align = 0 ∨ ∃ k < 64, align = 2 ^ k) :
    (miFindFreeRegion64 vads size limitLow limitHigh align ≠ 0 →
      IsLeast {a | Fits vads size limitLow limitHigh align a}
        (miFindFreeRegion64 vads size limitLow limitHigh align)) ∧
    (miFindFreeRegion64 vads size limitLow limitHigh align = 0 ↔
      ¬ ∃ a, Fits vads size limitLow limitHigh align a) ∧
    ∀ zeroBits limit, zeroBits < 2 ^ 64 → miZeroBitsPlacementLimit zeroBits = some limit →
      ZeroBitsLimit zeroBits limit := by
  have hle : align ≤ 2 ^ 63 := by
    obtain rfl | ⟨k, hk, rfl⟩ := halign
    · exact Nat.zero_le _
    · exact Nat.pow_le_pow_right (by decide) (by omega)
  have hlow := hlimits.low_lt
  rw [miFindFreeRegion64_eq hsize hpos hle huser (by omega)]
  refine ⟨isLeast_miFindFreeRegion hlaid huser hpos hle hlow, ⟨?_, ?_⟩,
    fun _ _ hlt h => miZeroBitsPlacementLimit_spec hlt h⟩
  · rintro hzero ⟨a, ha⟩
    exact miFindFreeRegion_ne_zero hlaid huser hpos hle hlow ha hzero
  · intro hnone
    by_contra hne
    exact hnone ⟨_, (isLeast_miFindFreeRegion hlaid huser hpos hle hlow hne).1⟩

/-- A page above a reservation, under the limit of 11 leading zero bits. -/
theorem miFindFreeRegion64_lowest_above :
    miFindFreeRegion64 [miCreateVad 0x10000 0x2000 4] 0x1000 0 (2 ^ 21 - 1) 0 = 0x20000 ∧
    IsLeast {a | Fits [miCreateVad 0x10000 0x2000 4] 0x1000 0 (2 ^ 21 - 1) 0 a} 0x20000 := by
  have hvalue : miFindFreeRegion64 [miCreateVad 0x10000 0x2000 4] 0x1000 0 (2 ^ 21 - 1) 0 =
      0x20000 := by
    decide
  have hlaid : Laid Vad.base Vad.limit [miCreateVad 0x10000 0x2000 4] :=
    Intervals.laid_cons.mpr ⟨by decide, fun _ hb => absurd hb List.not_mem_nil, Intervals.laid_nil⟩
  have hlimits : PlacementLimits 0 (2 ^ 21 - 1) :=
    .zeroBits (show 11 < 2 ^ 64 by decide) (by decide)
  have hlowest := miFindFreeRegion64_lowest _ hlaid (by decide) 0x1000 (by decide) (by decide) 0
    (2 ^ 21 - 1) 0 hlimits (.inl rfl)
  rw [hvalue] at hlowest
  exact ⟨hvalue, hlowest.1 (by decide)⟩

end Proskrnl.Mm
