import Mathlib

/-!
# Little-endian fields and padding

Byte strings as lists of `UInt8`: the little-endian image of a number in a field of fixed width,
the number a byte string denotes, 16-bit units stored two bytes each, and zero padding to a
multiple of eight. The reading lemmas are stated for a field that stands in front of arbitrary
further bytes, which is the form a record reader meets them in.
-/

namespace Bytes
open List

/-- The `w`-byte little-endian image of `n`, reduced modulo `256 ^ w`. -/
def le : Nat → Nat → List UInt8
  | 0, _ => []
  | w + 1, n => UInt8.ofNat n :: le w (n / 256)

/-- The number a little-endian byte string denotes. -/
def ofLe : List UInt8 → Nat
  | [] => 0
  | b :: bs => b.toNat + 256 * ofLe bs

/-- The `w`-byte field at offset `off` of `p`. -/
def field (p : List UInt8) (off w : Nat) : Nat := ofLe ((p.drop off).take w)

@[simp] theorem length_le (w n : Nat) : (le w n).length = w := by
  induction w generalizing n with
  | zero => rfl
  | succ w ih => simp [le, ih]

theorem ofLe_le (w n : Nat) : ofLe (le w n) = n % 256 ^ w := by
  induction w generalizing n with
  | zero => simp [le, ofLe, Nat.mod_one]
  | succ w ih =>
    have hb : (UInt8.ofNat n).toNat = n % 256 := by simp
    rw [le, ofLe, ih, hb, Nat.pow_succ', Nat.mod_mul]

variable {w : Nat} {a : List UInt8}

theorem ofLe_le_of_lt {n : Nat} (h : n < 256 ^ w) : ofLe (le w n) = n := by
  rw [ofLe_le, Nat.mod_eq_of_lt h]

theorem ofLe_lt (b : List UInt8) : ofLe b < 256 ^ b.length := by
  induction b with
  | nil => exact Nat.one_pos
  | cons c b ih =>
    have hc : c.toNat < 256 := UInt8.toNat_lt c
    rw [ofLe, length_cons, Nat.pow_succ']
    omega

theorem field_lt (p : List UInt8) (off w : Nat) : field p off w < 256 ^ w := by
  have hlength : ((p.drop off).take w).length ≤ w := by
    rw [length_take]
    exact Nat.min_le_left ..
  exact Nat.lt_of_lt_of_le (ofLe_lt _) (Nat.pow_le_pow_right (by decide) hlength)

/-- Reading past the first `a.length` bytes reads the rest. -/
theorem field_append {b : List UInt8} {off : Nat} (h : a.length ≤ off) :
    field (a ++ b) off w = field b (off - a.length) w := by
  simp only [field]
  rw [drop_append, drop_eq_nil_of_le h, nil_append]

/-- A field within the first bytes does not depend on what follows them. -/
theorem field_append_left (b : List UInt8) {off : Nat}
    (h : off + w ≤ a.length) : field (a ++ b) off w = field a off w := by
  simp only [field]
  rw [drop_append_of_le_length (by omega), take_append_of_le_length (by simp; omega)]

theorem field_cons (c : UInt8) (b : List UInt8) (off w : Nat) :
    field (c :: b) (off + 1) w = field b off w := rfl

theorem field_le (w n : Nat) (b : List UInt8) : field (le w n ++ b) 0 w = n % 256 ^ w := by
  simp only [field, drop_zero]
  rw [take_left' (length_le w n), ofLe_le]

theorem field_byte (c : UInt8) (b : List UInt8) : UInt8.ofNat (field (c :: b) 0 1) = c := by
  simp [field, ofLe]

/-- The little-endian bytes of a string of 16-bit units. -/
def ofUnits (s : List UInt16) : List UInt8 := s.flatMap fun c => le 2 c.toNat

/-- The 16-bit units of a byte string; an odd last byte is dropped. -/
def toUnits : List UInt8 → List UInt16
  | a :: b :: rest => UInt16.ofNat (ofLe [a, b]) :: toUnits rest
  | _ => []

@[simp] theorem length_ofUnits (s : List UInt16) : (ofUnits s).length = 2 * s.length := by
  induction s with
  | nil => rfl
  | cons c s ih =>
    simp only [ofUnits, flatMap_cons, length_append, length_le] at ih ⊢
    rw [ih, length_cons]
    omega

theorem toUnits_ofUnits (s : List UInt16) : toUnits (ofUnits s) = s := by
  induction s with
  | nil => rfl
  | cons c s ih =>
    have hc : UInt16.ofNat (ofLe (le 2 c.toNat)) = c := by
      rw [ofLe_le_of_lt (by have := c.toNat_lt; omega)]
      simp
    change toUnits (le 2 c.toNat ++ ofUnits s) = _
    simp only [le, cons_append, nil_append, toUnits]
    rw [ih]
    exact congrArg (· :: s) hc

/-- The least multiple of eight that is not below `n`. -/
def roundUp8 (n : Nat) : Nat := (n + 7) / 8 * 8

theorem le_roundUp8 (n : Nat) : n ≤ roundUp8 n := by
  unfold roundUp8; omega

theorem roundUp8_mod (n : Nat) : roundUp8 n % 8 = 0 := by
  unfold roundUp8; omega

theorem roundUp8_add {a : Nat} (b : Nat) (h : a % 8 = 0) : roundUp8 (a + b) = a + roundUp8 b := by
  unfold roundUp8; omega

/-- `bs` followed by zero bytes up to a multiple of eight. -/
def pad8 (bs : List UInt8) : List UInt8 :=
  bs ++ List.replicate (roundUp8 bs.length - bs.length) 0

@[simp] theorem length_pad8 (bs : List UInt8) : (pad8 bs).length = roundUp8 bs.length := by
  have := le_roundUp8 bs.length
  simp only [pad8, length_append, length_replicate]
  omega

/-- Padding a string that starts with whole eight-byte groups pads its last part. -/
theorem pad8_append (b : List UInt8) (h : a.length % 8 = 0) :
    pad8 (a ++ b) = a ++ pad8 b := by
  have hsub : roundUp8 (a ++ b).length - (a ++ b).length = roundUp8 b.length - b.length := by
    rw [length_append, roundUp8_add _ h]
    omega
  simp only [pad8, hsub, append_assoc]

theorem take_pad8 (bs rest : List UInt8) : (pad8 bs ++ rest).take bs.length = bs := by
  simp only [pad8, append_assoc]
  exact take_left' rfl

end Bytes
