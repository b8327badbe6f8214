import Mathlib.Data.List.Basic

/-!
# Overwriting a stretch of a list

`splice l i m` is `l` with its members from `i` on replaced by `m`, as a store into a buffer. The
rules say what is read behind it, member by member and stretch by stretch.
-/

namespace Splice
open List

variable {α : Type*} {l m m' : List α} {i j k n : Nat}

/-- `l` with `m` in place of its members from `i` on. -/
def splice (l : List α) (i : Nat) (m : List α) : List α := l.take i ++ m ++ l.drop (i + m.length)

@[simp] theorem length_splice (h : i + m.length ≤ l.length) : (splice l i m).length = l.length := by
  rw [splice, length_append, length_append, length_take, length_drop]
  omega

theorem splice_append {a b c : List α} (hi : a.length = i) (hm : m.length = b.length) :
    splice (a ++ b ++ c) i m = a ++ m ++ c := by
  rw [splice, append_assoc a, take_left' hi, ← append_assoc,
    drop_left' (by rw [length_append]; omega)]

theorem exists_parts (h : i + n ≤ l.length) :
    ∃ a b c, l = a ++ b ++ c ∧ a.length = i ∧ b.length = n := by
  refine ⟨l.take i, (l.drop i).take n, l.drop (i + n), ?_, ?_, ?_⟩
  · rw [append_assoc, ← drop_drop, take_append_drop, take_append_drop]
  · rw [length_take]
    omega
  · rw [length_take, length_drop]
    omega

section
variable (h : i + m.length ≤ l.length)
include h

theorem getElem?_splice (j : Nat) :
    (splice l i m)[j]? = if i ≤ j ∧ j < i + m.length then m[j - i]? else l[j]? := by
  obtain ⟨a, b, c, rfl, ha, hb⟩ := exists_parts h
  rw [splice_append ha hb.symm, append_assoc, append_assoc, getElem?_append,
    getElem?_append, getElem?_append, getElem?_append]
  split
  case isTrue hlt => rw [if_neg (by omega)]
  case isFalse hge =>
    split
    case isTrue hlt => rw [if_pos (by omega), ha]
    case isFalse hge' => rw [if_neg (by omega), if_neg (by omega), ha, hb]

theorem getElem?_splice_inside (hi : i ≤ j) (hj : j < i + m.length) :
    (splice l i m)[j]? = m[j - i]? := by
  rw [getElem?_splice h, if_pos ⟨hi, hj⟩]

theorem getElem?_splice_outside (hj : j < i ∨ i + m.length ≤ j) :
    (splice l i m)[j]? = l[j]? := by
  rw [getElem?_splice h, if_neg (by omega)]

theorem take_drop_splice_self :
    ((splice l i m).drop i).take m.length = m := by
  obtain ⟨a, b, c, rfl, ha, hb⟩ := exists_parts h
  rw [splice_append ha hb.symm, append_assoc, drop_left' ha, take_left]

theorem take_drop_splice_other
    (hj : j + n ≤ i ∨ i + m.length ≤ j) :
    ((splice l i m).drop j).take n = (l.drop j).take n := by
  apply ext_getElem?
  intro k
  rw [getElem?_take, getElem?_take, getElem?_drop, getElem?_drop]
  split
  case isTrue hk => exact getElem?_splice_outside h (by omega)
  case isFalse => rfl

end

theorem splice_nil (l : List α) (i : Nat) : splice l i [] = l := by
  rw [splice, append_nil, length_nil, Nat.add_zero, take_append_drop]

theorem splice_cons (a : α) (h : i + (m.length + 1) ≤ l.length) :
    splice l i (a :: m) = splice (l.set i a) (i + 1) m := by
  have hlength : (l.set i a).length = l.length := length_set
  apply ext_getElem?
  intro j
  rw [getElem?_splice (by rw [length_cons]; omega), getElem?_splice (by omega),
    getElem?_set, length_cons]
  by_cases hj : i = j
  · subst hj
    rw [if_pos (by omega), if_neg (by omega), if_pos rfl, if_pos (by omega), Nat.sub_self]
    rfl
  · by_cases hin : i + 1 ≤ j ∧ j < i + 1 + m.length
    · rw [if_pos (by omega), if_pos hin, show j - i = j - (i + 1) + 1 by omega]
      rfl
    · rw [if_neg (by omega), if_neg hin, if_neg hj]

end Splice
