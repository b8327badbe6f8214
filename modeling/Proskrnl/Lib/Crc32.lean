import Mathlib

/-!
# CRC-32/ISO-HDLC

`kernel/lib/crc32.c`, bit at a time: the reflected polynomial is folded back in whenever the bit
shifted out was set.
-/

namespace Proskrnl

/-- One round of the inner loop of `KiCrc32`. -/
def kiCrc32Bit (crc : UInt32) : UInt32 :=
  if crc &&& 1 ≠ 0 then (crc >>> 1) ^^^ 0xEDB88320 else crc >>> 1

/-- One byte of `KiCrc32`: eight rounds. -/
def kiCrc32Byte (crc : UInt32) (byte : UInt8) : UInt32 :=
  (List.range 8).foldl (fun crc _ => kiCrc32Bit crc) (crc ^^^ byte.toUInt32)

def kiCrc32 (data : List UInt8) : UInt32 := data.foldl kiCrc32Byte 0xFFFFFFFF ^^^ 0xFFFFFFFF

-- `KiCrc32SelfTest`: the published check value, and the empty range.
example : kiCrc32 [0x31, 0x32, 0x33, 0x34, 0x35, 0x36, 0x37, 0x38, 0x39] = 0xCBF43926 := by
  decide +kernel
example : kiCrc32 [] = 0 := by decide

theorem toBitVec_kiCrc32Bit (x : UInt32) : (kiCrc32Bit x).toBitVec =
    (x.toBitVec >>> 1) ^^^ (if x.toBitVec.getLsbD 0 then 0xEDB88320#32 else 0) := by
  have hlow : (x &&& 1 = 0) ↔ x.toBitVec.getLsbD 0 = false := by
    rw [← UInt32.toBitVec_inj, UInt32.toBitVec_and]
    change x.toBitVec &&& 1#32 = 0#32 ↔ _
    rw [BitVec.and_one_eq_setWidth_ofBool_getLsbD]
    cases x.toBitVec.getLsbD 0 <;> decide
  rw [kiCrc32Bit]
  cases h : x.toBitVec.getLsbD 0 with
  | true => rw [if_pos (by rw [ne_eq, hlow, h]; decide)]; simp
  | false => rw [if_neg (by rw [ne_eq, hlow, h]; decide)]; simp

/-- The bit that is shifted out comes back as the highest bit of the polynomial. -/
theorem kiCrc32Bit_injective : Function.Injective kiCrc32Bit := by
  intro x y h
  have hbits (i : Nat) := congrArg (fun z : UInt32 => z.toBitVec.getLsbD i) h
  simp only [toBitVec_kiCrc32Bit, BitVec.getLsbD_xor, BitVec.getLsbD_ushiftRight] at hbits
  have hlow : x.toBitVec.getLsbD 0 = y.toBitVec.getLsbD 0 := by
    have htop := hbits 31
    rw [BitVec.getLsbD_of_ge x.toBitVec (1 + 31) (le_refl _),
      BitVec.getLsbD_of_ge y.toBitVec (1 + 31) (le_refl _)] at htop
    cases hx : x.toBitVec.getLsbD 0 <;> cases hy : y.toBitVec.getLsbD 0 <;> rw [hx, hy] at htop <;>
      first | rfl | exact absurd htop (by decide)
  refine UInt32.toBitVec_inj.mp (BitVec.eq_of_getLsbD_eq fun i _ => ?_)
  cases i with
  | zero => exact hlow
  | succ i =>
    have hi := hbits i
    rw [hlow, Nat.add_comm] at hi
    exact Bool.xor_left_inj.mp hi

theorem foldl_injective {α β : Type*} {f : β → α → β} (hf : ∀ a, Function.Injective (f · a))
    (l : List α) : Function.Injective (l.foldl f) := by
  induction l with
  | nil => exact fun _ _ h => h
  | cons a l ih => exact fun _ _ h => hf a (ih h)

theorem kiCrc32Byte_inj {s s' : UInt32} {c c' : UInt8} :
    kiCrc32Byte s c = kiCrc32Byte s' c' ↔ s ^^^ c.toUInt32 = s' ^^^ c'.toUInt32 :=
  (foldl_injective (fun _ => kiCrc32Bit_injective) (List.range 8)).eq_iff

/-- **One changed byte changes the checksum.** -/
theorem kiCrc32_ne (u w : List UInt8) {c c' : UInt8} (hne : c ≠ c') :
    kiCrc32 (u ++ c :: w) ≠ kiCrc32 (u ++ c' :: w) := by
  intro h
  rw [kiCrc32, kiCrc32, UInt32.xor_left_inj, List.foldl_append, List.foldl_append] at h
  have hstep (c : UInt8) : Function.Injective (kiCrc32Byte · c) := fun s s' hs =>
    (UInt32.xor_left_inj _).mp (kiCrc32Byte_inj.mp hs)
  have hbyte := kiCrc32Byte_inj.mp (foldl_injective hstep w h)
  rw [UInt32.xor_right_inj] at hbyte
  exact hne (by simpa using congrArg UInt32.toUInt8 hbyte)

end Proskrnl
