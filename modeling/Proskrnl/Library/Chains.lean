import Mathlib.Data.List.Nodup
import Mathlib.Logic.Function.Basic

/-!
# Chains over a successor function

A list kept as links in a table: each member names the next one, and the last one names none. A
chain that ends visits no member twice, so a walk along it needs no other guard. The rules say what
a change of one link does to the chain it belongs to and to every other.
-/

namespace Chains
open List

variable {α : Type*} {next next' : α → Option α} {start : Option α} {l l1 l2 : List α} {a b : α}

/-- From `start`, the links lead along `l` and end. -/
inductive Linked (next : α → Option α) : Option α → List α → Prop
  | nil : Linked next none []
  | cons {a : α} {l : List α} : Linked next (next a) l → Linked next (some a) (a :: l)

theorem Linked.start_eq (h : Linked next start l) : start = l.head? := by
  cases h <;> rfl

theorem Linked.unique (h1 : Linked next start l1) (h2 : Linked next start l2) : l1 = l2 := by
  induction h1 generalizing l2 with
  | nil => cases h2; rfl
  | cons _ ih =>
    cases h2 with
    | cons h2 => rw [ih h2]

theorem Linked.congr (h : Linked next start l) (heq : ∀ a ∈ l, next' a = next a) :
    Linked next' start l := by
  induction h with
  | nil => exact .nil
  | @cons a l h ih =>
    refine .cons ?_
    rw [heq a (mem_cons_self ..)]
    exact ih fun b hb => heq b (mem_cons_of_mem _ hb)

theorem Linked.suffix (h : Linked next start (l1 ++ a :: l2)) : Linked next (some a) (a :: l2) := by
  induction l1 generalizing start with
  | nil =>
    cases h with
    | cons h => exact .cons h
  | cons c l1 ih =>
    cases h with
    | cons h => exact ih h

theorem Linked.next_of_append (h : Linked next start (l1 ++ a :: l2)) : next a = l2.head? := by
  cases h.suffix with
  | cons h => exact h.start_eq

theorem Linked.nodup (h : Linked next start l) : l.Nodup := by
  induction h with
  | nil => exact nodup_nil
  | @cons a l h ih =>
    refine nodup_cons.mpr ⟨fun hmem => ?_, ih⟩
    obtain ⟨l1, l2, rfl⟩ := append_of_mem hmem
    -- the chain from the second visit is the chain from the first
    have heq : a :: l2 = a :: (l1 ++ a :: l2) := h.suffix.unique (.cons h)
    have hlength := congrArg List.length heq
    simp only [length_cons, length_append] at hlength
    omega

variable [DecidableEq α]

theorem Linked.concat (h : Linked next start (l ++ [a])) (hb : b ∉ l ++ [a]) (hnone : next b = none) :
    Linked (Function.update next a (some b)) start (l ++ [a, b]) := by
  induction l generalizing start with
  | nil =>
    cases h with
    | cons h =>
      refine .cons ?_
      rw [Function.update_self]
      refine .cons ?_
      have hne : b ≠ a := fun heq => hb (heq ▸ mem_singleton_self _)
      rw [Function.update_of_ne hne, hnone]
      exact .nil
  | cons c l ih =>
    have hnodup := h.nodup
    cases h with
    | cons h =>
      refine .cons ?_
      have hne : c ≠ a := by
        rintro rfl
        exact (nodup_cons.mp hnodup).1 (mem_append_right _ (mem_singleton_self _))
      rw [Function.update_of_ne hne]
      exact ih h fun hmem => hb (mem_cons_of_mem _ hmem)

theorem Linked.cut (h : Linked next start (l1 ++ a :: l2)) :
    Linked (Function.update next a none) start (l1 ++ [a]) ∧ Linked next l2.head? l2 := by
  have hnodup := h.nodup
  constructor
  · induction l1 generalizing start with
    | nil =>
      cases h with
      | cons h =>
        refine .cons ?_
        rw [Function.update_self]
        exact .nil
    | cons c l1 ih =>
      cases h with
      | cons h =>
        refine .cons ?_
        have hne : c ≠ a := by
          rintro rfl
          exact (nodup_cons.mp hnodup).1 (mem_append_right _ (mem_cons_self ..))
        rw [Function.update_of_ne hne]
        exact ih h (nodup_cons.mp hnodup).2
  · cases h.suffix with
    | cons h => rwa [h.start_eq] at h

end Chains
