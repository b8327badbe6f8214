import Mathlib

/-!
# Numerals

Digits read into a number from the left, and a number printed in a base.
-/

namespace Numerals

/-- What the digits come to behind a number; none if one of them is no digit. -/
def readFrom {α : Type} (value : α → Option Nat) (base : Nat) : Nat → List α → Option Nat
  | n, [] => some n
  | n, c :: rest => (value c).bind fun d => readFrom value base (n * base + d) rest

/-- The digits of a number, without leading zeros. -/
def print {α : Type} (glyph : Nat → α) (base n : Nat) : List α :=
  if 2 ≤ base ∧ base ≤ n then print glyph base (n / base) ++ [glyph (n % base)] else [glyph n]
termination_by n
decreasing_by exact Nat.div_lt_self (by omega) (by omega)

variable {α : Type} {value : α → Option Nat} {glyph : Nat → α} {base n k v : Nat} {s t : List α}

theorem read_append : readFrom value base n (s ++ t) = (readFrom value base n s).bind (readFrom value base · t) := by
  induction s generalizing n with
  | nil => rfl
  | cons c s ih =>
    rw [List.cons_append, readFrom, readFrom]
    cases value c with
    | none => rfl
    | some d => exact ih

theorem read_singleton (c : α) : readFrom value base n [c] = (value c).map (n * base + ·) := by
  rw [readFrom]
  cases value c <;> rfl

theorem le_read (hbase : 0 < base) (h : readFrom value base n t = some v) : n ≤ v := by
  induction t generalizing n with
  | nil => exact Nat.le_of_eq (Option.some.inj h)
  | cons c t ih =>
    obtain ⟨d, -, h⟩ := Option.bind_eq_some_iff.mp h
    have := ih h
    have := Nat.le_mul_of_pos_right n hbase
    omega

theorem value_of_readFrom (h : readFrom value base n t = some v) : ∀ c ∈ t, value c ≠ none := by
  induction t generalizing n with
  | nil => nofun
  | cons c t ih =>
    obtain ⟨d, hd, h⟩ := Option.bind_eq_some_iff.mp h
    intro x hx
    obtain rfl | hx := List.mem_cons.mp hx
    · rw [hd]
      nofun
    · exact ih h x hx

theorem read_print (hbase : 2 ≤ base) (hglyph : ∀ d < base, value (glyph d) = some d) :
    readFrom value base 0 (print glyph base n) = some n := by
  induction n using Nat.strongRecOn with
  | ind n ih =>
    rw [print]
    split
    · rename_i hle
      rw [read_append, ih (n / base) (Nat.div_lt_self (by omega) (by omega)), Option.bind_some,
        read_singleton, hglyph _ (Nat.mod_lt _ (by omega)), Option.map_some, Nat.div_add_mod']
    · rw [read_singleton, hglyph n (by omega), Option.map_some, Nat.zero_mul, Nat.zero_add]

theorem length_print (h : n < base ^ (k + 1)) :
    print glyph base n ≠ [] ∧ (print glyph base n).length ≤ k + 1 := by
  induction k generalizing n with
  | zero =>
    rw [print, if_neg (by rw [Nat.pow_one] at h; omega)]
    exact ⟨List.cons_ne_nil _ _, Nat.le_refl _⟩
  | succ k ih =>
    rw [print]
    split
    · have hdiv := (ih (Nat.div_lt_of_lt_mul (by rwa [Nat.mul_comm, ← Nat.pow_succ]))).2
      exact ⟨List.append_ne_nil_of_right_ne_nil _ (List.cons_ne_nil _ _), by
        rw [List.length_append, List.length_singleton]
        omega⟩
    · exact ⟨List.cons_ne_nil _ _, by simp⟩

end Numerals
