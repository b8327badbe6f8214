import Mathlib

/-!
# Patterns over positions

A pattern is a list of tokens, and a rule says how many units of what remains of a name the first
token of what remains of the pattern may take. Three readings of "the pattern accepts the name" are
one: tokens taking their units in turn (`Takes`), an assignment of a position to every token
boundary (`Assigns`), and the set of positions that can be reached after each token (`accepts`).
-/

namespace PositionSets
open List
variable {τ α : Type*} {rule : List τ → List α → Nat → Bool} {t : τ} {pattern : List τ}
  {name : List α}

def Takes (rule : List τ → List α → Nat → Bool) : List τ → List α → Prop
  | [], name => name = []
  | t :: rest, name =>
    ∃ n ≤ name.length, rule (t :: rest) name n = true ∧ Takes rule rest (name.drop n)

/-- Token `i` begins at position `p i` of the name and ends where the next one begins. -/
structure Assigns (rule : List τ → List α → Nat → Bool) (pattern : List τ) (name : List α)
    (p : Nat → Nat) : Prop where
  first : p 0 = 0
  last : p pattern.length = name.length
  ascends : ∀ i < pattern.length, p i ≤ p (i + 1)
  meets : ∀ i < pattern.length, rule (pattern.drop i) (name.drop (p i)) (p (i + 1) - p i) = true

/-- Where the first token may end, if it begins at one of the positions. -/
def advance (rule : List τ → List α → Nat → Bool) (pattern : List τ) (name : List α)
    (positions : List Nat) : List Nat :=
  (List.range (name.length + 1)).filter fun q =>
    positions.any fun p => decide (p ≤ q) && rule pattern (name.drop p) (q - p)

def finals (rule : List τ → List α → Nat → Bool) (name : List α) : List τ → List Nat → List Nat
  | [], positions => positions
  | t :: rest, positions => finals rule name rest (advance rule (t :: rest) name positions)

def accepts (rule : List τ → List α → Nat → Bool) (pattern : List τ) (name : List α) : Bool :=
  (finals rule name pattern [0]).contains name.length

variable {p : Nat → Nat}

theorem Assigns.le_length (h : Assigns rule pattern name p) {i : Nat}
    (hi : i ≤ pattern.length) : p i ≤ name.length := by
  induction hi using Nat.decreasingInduction with
  | self => exact h.last.le
  | of_succ j hj ih => exact (h.ascends j hj).trans ih

theorem Assigns.tail (h : Assigns rule (t :: pattern) name p) :
    Assigns rule pattern (name.drop (p 1)) (fun i => p (i + 1) - p 1) := by
  have hge : ∀ i ≤ pattern.length, p 1 ≤ p (i + 1) := by
    intro i hi
    induction i with
    | zero => exact le_rfl
    | succ i ih => exact (ih (by omega)).trans (h.ascends (i + 1) (by simp; omega))
  refine ⟨Nat.sub_self _, ?_, ?_, ?_⟩
  · have := h.last
    simp only [length_cons, length_drop] at this ⊢
    omega
  · intro i hi
    have := h.ascends (i + 1) (by simp; omega)
    exact Nat.sub_le_sub_right this _
  · intro i hi
    have hmeets := h.meets (i + 1) (by simp; omega)
    have hat := hge i (by omega)
    have hspan : p (i + 1 + 1) - p 1 - (p (i + 1) - p 1) = p (i + 1 + 1) - p (i + 1) := by omega
    rw [drop_drop, Nat.add_sub_of_le hat, hspan]
    exact hmeets

theorem Assigns.cons {n : Nat} (hn : n ≤ name.length)
    (hrule : rule (t :: pattern) name n = true) (h : Assigns rule pattern (name.drop n) p) :
    Assigns rule (t :: pattern) name (fun i => if i = 0 then 0 else n + p (i - 1)) := by
  refine ⟨rfl, ?_, ?_, ?_⟩
  · have := h.last
    simp only [length_cons, length_drop] at this ⊢
    simp only [Nat.succ_ne_zero, if_false, Nat.add_sub_cancel]
    omega
  · intro i hi
    cases i with
    | zero => exact Nat.zero_le _
    | succ i =>
      have := h.ascends i (by simpa using hi)
      simp only [Nat.succ_ne_zero, if_false, Nat.add_sub_cancel]
      omega
  · intro i hi
    cases i with
    | zero => simpa [h.first] using hrule
    | succ i =>
      have hmeets := h.meets i (by simpa using hi)
      have hspan : n + p (i + 1) - (n + p i) = p (i + 1) - p i := by omega
      simp only [Nat.succ_ne_zero, if_false, Nat.add_sub_cancel, hspan]
      rwa [drop_drop] at hmeets

/-- Tokens take their units in turn exactly where the boundaries can be assigned. -/
theorem takes_iff_assigns : Takes rule pattern name ↔ ∃ p, Assigns rule pattern name p := by
  induction pattern generalizing name with
  | nil =>
    constructor
    · intro h
      have hname : name = [] := h
      exact ⟨fun _ => 0, rfl, by simp [hname], nofun, nofun⟩
    · rintro ⟨p, h⟩
      have hlength : name.length = 0 := h.last.symm.trans h.first
      exact eq_nil_of_length_eq_zero hlength
  | cons t pattern ih =>
    constructor
    · rintro ⟨n, hn, hrule, hrest⟩
      obtain ⟨p, hp⟩ := ih.mp hrest
      exact ⟨_, hp.cons hn hrule⟩
    · rintro ⟨p, h⟩
      have hrule := h.meets 0 (Nat.succ_pos _)
      rw [h.first, drop_zero, drop_zero, Nat.sub_zero] at hrule
      exact ⟨p 1, h.le_length (by simp), hrule, ih.mpr ⟨_, h.tail⟩⟩

theorem mem_advance {positions : List Nat} {q : Nat} :
    q ∈ advance rule pattern name positions ↔
      q ≤ name.length ∧ ∃ p ∈ positions, p ≤ q ∧ rule pattern (name.drop p) (q - p) = true := by
  simp [advance]

/-- The last token may end at the name's end exactly where the tokens can take the name from one of
the positions on. -/
theorem mem_finals {positions : List Nat} (hpositions : ∀ p ∈ positions, p ≤ name.length) :
    name.length ∈ finals rule name pattern positions ↔
      ∃ p ∈ positions, Takes rule pattern (name.drop p) := by
  induction pattern generalizing positions with
  | nil =>
    constructor
    · intro h
      exact ⟨_, h, drop_length⟩
    · rintro ⟨p, hp, h⟩
      have hlength : name.length ≤ p := drop_eq_nil_iff.mp h
      have hat : p = name.length := le_antisymm (hpositions p hp) hlength
      rw [finals]
      exact hat ▸ hp
  | cons t pattern ih =>
    rw [finals, ih (fun q hq => (mem_advance.mp hq).1)]
    constructor
    · rintro ⟨q, hq, h⟩
      obtain ⟨hlength, p, hp, hle, hrule⟩ := mem_advance.mp hq
      refine ⟨p, hp, q - p, by simp; omega, hrule, ?_⟩
      rwa [drop_drop, Nat.add_sub_of_le hle]
    · rintro ⟨p, hp, n, hn, hrule, h⟩
      have hle := hpositions p hp
      rw [length_drop] at hn
      rw [drop_drop] at h
      refine ⟨p + n, mem_advance.mpr ⟨by omega, p, hp, by omega, ?_⟩, h⟩
      rwa [Nat.add_sub_cancel_left]

theorem accepts_iff_takes : accepts rule pattern name = true ↔ Takes rule pattern name := by
  have hstart : ∀ p ∈ [0], p ≤ name.length := by simp
  rw [accepts, contains_iff_mem, mem_finals hstart]
  simp

end PositionSets
