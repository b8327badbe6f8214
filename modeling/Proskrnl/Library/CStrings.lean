import Mathlib.Data.List.TakeDrop
import Mathlib.Data.List.Forall2

/-!
# Strings in a block

A string lies in a block from a place on, up to its terminator (`StringAt`). It depends on the block
only as far as that (`StringAt.congr`), a place inside of it begins a string of its own
(`StringAt.drop`), and a terminator written into it makes two of it (`StringAt.cut`).
-/

namespace CStrings
open List
variable {α : Type*}

/-- From a place on the text stands in the block, with a terminator behind it. -/
inductive StringAt (stop : α) (block : List α) : Nat → List α → Prop
  | nil {i : Nat} : block[i]? = some stop → StringAt stop block i []
  | cons {i : Nat} {c : α} {text : List α} : block[i]? = some c → c ≠ stop →
    StringAt stop block (i + 1) text → StringAt stop block i (c :: text)

variable {stop c : α} {block block' : List α} {i j : Nat} {text front rest : List α}

theorem StringAt.terminated (h : StringAt stop block i text) :
    block[i + text.length]? = some stop := by
  induction h with
  | nil hstop => exact hstop
  | cons _ _ _ ih =>
    rw [length_cons, ← Nat.add_assoc, Nat.add_right_comm]
    exact ih

/-- What is read at the place of a string. -/
theorem StringAt.read (h : StringAt stop block i text) : block[i]? = some (text.headD stop) := by
  cases h with
  | nil hstop => exact hstop
  | cons hc _ _ => exact hc

theorem StringAt.headD_eq_iff (h : StringAt stop block i text) :
    text.headD stop = stop ↔ text = [] := by
  cases h with
  | nil => exact iff_of_true rfl rfl
  | cons _ hne _ => exact iff_of_false hne (cons_ne_nil _ _)

theorem StringAt.headD_eq_iff_head? (h : StringAt stop block i text) (hc : c ≠ stop) :
    text.headD stop = c ↔ text.head? = some c := by
  cases h with
  | nil => exact iff_of_false (Ne.symm hc) nofun
  | cons => exact (Option.some_inj).symm

theorem StringAt.lt_length (h : StringAt stop block i text) : i + text.length < block.length :=
  (List.getElem?_eq_some_iff.mp h.terminated).1

/-- A block that is the same as far as the terminator has the same string. -/
theorem StringAt.congr (h : StringAt stop block i text)
    (hsame : ∀ j, i ≤ j → j ≤ i + text.length → block'[j]? = block[j]?) :
    StringAt stop block' i text := by
  induction h with
  | nil hstop => exact .nil ((hsame _ (Nat.le_refl _) (Nat.le_refl _)).trans hstop)
  | cons hc hne _ ih =>
    refine .cons ((hsame _ (Nat.le_refl _) (Nat.le_add_right ..)).trans hc) hne (ih fun j hij hj => ?_)
    exact hsame j (Nat.le_of_succ_le hij) (by rw [length_cons]; omega)

theorem StringAt.drop (h : StringAt stop block i (front ++ rest)) :
    StringAt stop block (i + front.length) rest := by
  induction front generalizing i with
  | nil => exact h
  | cons c front ih =>
    cases h with
    | cons _ _ htail =>
      rw [length_cons, ← Nat.add_assoc, Nat.add_right_comm]
      exact ih htail

theorem StringAt.getElem (h : StringAt stop block i (front ++ c :: rest)) :
    block[i + front.length]? = some c := by
  cases h.drop with
  | cons hc _ _ => exact hc

theorem StringAt.tail (h : StringAt stop block i (front ++ c :: rest)) :
    StringAt stop block (i + front.length + 1) rest := by
  cases h.drop with
  | cons _ _ htail => exact htail

/-- What stands before a place where the terminator is put. -/
theorem StringAt.take (h : StringAt stop block i (front ++ rest)) :
    StringAt stop (block.set (i + front.length) stop) i front := by
  induction front generalizing i with
  | nil => exact .nil (getElem?_set_self (Nat.lt_of_le_of_lt (Nat.le_add_right ..) h.lt_length))
  | cons c front ih =>
    cases h with
    | cons hc hne htail =>
      have hplace : i + (c :: front).length = i + 1 + front.length := by
        rw [length_cons]
        omega
      refine .cons ?_ hne ?_
      · rw [getElem?_set_ne (by rw [length_cons]; omega)]
        exact hc
      · rw [hplace]
        exact ih htail

/-- A terminator that is put over a character makes two strings. -/
theorem StringAt.cut (h : StringAt stop block i (front ++ c :: rest)) :
    StringAt stop (block.set (i + front.length) stop) i front ∧
      StringAt stop (block.set (i + front.length) stop) (i + front.length + 1) rest := by
  exact ⟨h.take, h.tail.congr fun j hj _ => getElem?_set_ne (by omega)⟩

theorem StringAt.ne_stop (h : StringAt stop block i text) : ∀ c ∈ text, c ≠ stop := by
  induction h with
  | nil => exact fun c hc => absurd hc not_mem_nil
  | cons _ hne _ ih => exact forall_mem_cons.mpr ⟨hne, ih⟩

section
variable [DecidableEq α]

/-- The string at the front of what has a terminator behind it: what stands before the first one. -/
def cString (stop : α) (data : List α) : List α := data.takeWhile (· ≠ stop)

theorem cString_append (stop : α) (front data behind : List α) :
    StringAt stop (front ++ (data ++ stop :: behind)) front.length (cString stop data) := by
  induction data generalizing front with
  | nil => exact .nil (by simp)
  | cons c data ih =>
    by_cases hc : c = stop
    · subst hc
      rw [cString, takeWhile_cons_of_neg (by simp)]
      exact .nil (by simp)
    · rw [cString, takeWhile_cons_of_pos (by simpa using hc)]
      refine .cons (by simp) hc ?_
      have htail := ih (front ++ [c])
      rw [append_assoc, length_append, length_singleton] at htail
      exact htail

theorem stringAt_cString (stop : α) (data : List α) :
    StringAt stop (data ++ [stop]) 0 (cString stop data) :=
  cString_append stop [] data []

end

/-- Texts stand at places one behind the other, from a place on and with their terminators up to
another. -/
inductive Laid (stop : α) (block : List α) : Nat → Nat → List Nat → List (List α) → Prop
  | nil {i e : Nat} : Laid stop block i e [] []
  | cons {i e p : Nat} {text : List α} {places : List Nat} {texts : List (List α)} : i ≤ p →
    StringAt stop block p text → p + text.length ≤ e →
    Laid stop block (p + text.length + 1) e places texts →
    Laid stop block i e (p :: places) (text :: texts)

variable {e : Nat} {places : List Nat} {texts : List (List α)}

theorem Laid.mono (h : Laid stop block i e places texts) (hji : j ≤ i) :
    Laid stop block j e places texts := by
  cases h with
  | nil => exact .nil
  | cons hp htext hend hrest => exact .cons (Nat.le_trans hji hp) htext hend hrest

/-- A block that is the same from there on has the same texts. -/
theorem Laid.congr (h : Laid stop block i e places texts)
    (hsame : ∀ j, i ≤ j → block'[j]? = block[j]?) : Laid stop block' i e places texts := by
  induction h with
  | nil => exact .nil
  | cons hp htext hend _ ih =>
    refine .cons hp (htext.congr fun j hj _ => hsame j (Nat.le_trans hp hj)) hend (ih fun j hj => ?_)
    exact hsame j (by omega)

end CStrings
