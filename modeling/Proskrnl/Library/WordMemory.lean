import Proskrnl.Library.Bytes
import Proskrnl.Library.Stores

/-!
# Words in a memory of bytes

A memory gives each address a byte. A word is the little-endian number in eight bytes; a word that is
stored is read back, and words at other addresses that are multiples of eight are not touched. A fill
sets a range of bytes.
-/

namespace WordMemory
open List

abbrev Memory := Nat → UInt8

def word (m : Memory) (a : Nat) : Nat := Bytes.ofLe ((List.range 8).map fun i => m (a + i))

def setWord (m : Memory) (a v : Nat) : Memory := (Stores.Store.mk a (Bytes.le 8 v)).apply m

/-- A range of bytes set to one value. -/
def fill (m : Memory) (a n : Nat) (b : UInt8) : Memory := fun i => if a ≤ i ∧ i < a + n then b else m i

variable {m m' : Memory} {a x n v : Nat} {b : UInt8}

theorem word_lt (m : Memory) (a : Nat) : word m a < 2 ^ 64 := by
  have h := Bytes.ofLe_lt ((List.range 8).map fun i => m (a + i))
  rw [length_map, length_range] at h
  exact h

theorem word_congr (h : ∀ i, x ≤ i → i < x + 8 → m' i = m i) : word m' x = word m x := by
  rw [word, word]
  congr 1
  apply map_congr_left
  intro i hi
  have hi := mem_range.mp hi
  exact h _ (Nat.le_add_right ..) (Nat.add_lt_add_left hi x)

theorem setWord_outside (h : x < a ∨ a + 8 ≤ x) : setWord m a v x = m x :=
  Stores.apply_outside (by rwa [Stores.Store.stop, Bytes.length_le])

theorem word_setWord_self (hv : v < 2 ^ 64) : word (setWord m a v) a = v := by
  have hbytes : ((List.range 8).map fun i => setWord m a v (a + i)) = Bytes.le 8 v := by
    apply ext_getElem
    · rw [length_map, length_range, Bytes.length_le]
    · intro i h1 h2
      rw [getElem_map, getElem_range]
      exact Stores.holds_apply i _ (getElem?_eq_getElem h2)
  rw [word, hbytes, Bytes.ofLe_le_of_lt hv]

theorem word_setWord_apart (h : x + 8 ≤ a ∨ a + 8 ≤ x) : word (setWord m a v) x = word m x := by
  apply word_congr
  intro i hlow hhigh
  apply setWord_outside
  omega

theorem fill_inside (hlow : a ≤ x) (hhigh : x < a + n) : fill m a n b x = b := if_pos ⟨hlow, hhigh⟩

theorem fill_outside (h : x < a ∨ a + n ≤ x) : fill m a n b x = m x := if_neg (by omega)

end WordMemory
