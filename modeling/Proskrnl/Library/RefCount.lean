import Mathlib

/-!
# Counted references

Objects with a count each, and slots that refer to objects: the counts are accounted for when no
object is listed twice, each count is the number of slots that refer to the object, and every
reference finds its object. The rules say how the accounts follow objects that come and go and
references that are taken and dropped.
-/

namespace RefCount
open List

variable {α : Type} [DecidableEq α]

structure Accounted (objects : List (α × Nat)) (slots : List (Option α)) : Prop where
  nodup : (objects.map Prod.fst).Nodup
  count : ∀ x ∈ objects, x.2 = slots.count (some x.1)
  bound : ∀ a, some a ∈ slots → a ∈ objects.map Prod.fst

namespace Accounted

variable {objects objects' rest : List (α × Nat)} {slots : List (Option α)} {a : α} {n i : Nat}

theorem perm (h : Accounted objects slots) (hp : objects.Perm objects') :
    Accounted objects' slots where
  nodup := (hp.map Prod.fst).nodup_iff.mp h.nodup
  count x hx := h.count x (hp.mem_iff.mpr hx)
  bound b hb := (hp.map Prod.fst).mem_iff.mp (h.bound b hb)

theorem append (h : Accounted objects slots) (hnodup : (rest.map Prod.fst).Nodup)
    (hzero : ∀ x ∈ rest, x.2 = 0)
    (hfresh : ∀ x ∈ rest, x.1 ∉ objects.map Prod.fst) : Accounted (objects ++ rest) slots where
  nodup := by
    rw [map_append, nodup_append]
    refine ⟨h.nodup, hnodup, ?_⟩
    rintro b hb c hc rfl
    obtain ⟨x, hx, rfl⟩ := List.mem_map.mp hc
    exact hfresh x hx hb
  count := by
    intro x hx
    rcases mem_append.mp hx with hx | hx
    · exact h.count x hx
    · rw [hzero x hx, eq_comm, count_eq_zero]
      exact fun hmem => hfresh x hx (h.bound _ hmem)
  bound b hb := by
    rw [map_append]
    exact mem_append_left _ (h.bound b hb)

theorem of_append (h : Accounted (objects ++ rest) slots) (hzero : ∀ x ∈ rest, x.2 = 0) :
    Accounted objects slots where
  nodup := by
    have := h.nodup
    rw [map_append, nodup_append] at this
    exact this.1
  count x hx := h.count x (mem_append_left _ hx)
  bound b hb := by
    have hmem := h.bound b hb
    rw [map_append] at hmem
    refine (mem_append.mp hmem).resolve_right fun hb' => ?_
    obtain ⟨x, hx, rfl⟩ := List.mem_map.mp hb'
    have hcount := h.count x (mem_append_right _ hx)
    rw [hzero x hx, eq_comm, count_eq_zero] at hcount
    exact hcount hb

section
variable (h : Accounted ((a, n) :: rest) slots)
include h

theorem count_cons : n = slots.count (some a) :=
  h.count (a, n) mem_cons_self

theorem ne_of_mem {x : α × Nat} (hx : x ∈ rest) :
    x.1 ≠ a := by
  intro heq
  have := h.nodup
  rw [map_cons, nodup_cons] at this
  exact this.1 (List.mem_map.mpr ⟨x, hx, heq⟩)

theorem take :
    Accounted ((a, n + 1) :: rest) (slots ++ [some a]) where
  nodup := h.nodup
  count := by
    intro x hx
    rcases mem_cons.mp hx with rfl | hx
    · rw [count_append, ← h.count_cons]
      simp
    · have hne := h.ne_of_mem hx
      rw [count_append, ← h.count x (mem_cons_of_mem _ hx),
        count_eq_zero.mpr (by simpa using hne), Nat.add_zero]
  bound b hb := by
    rcases mem_append.mp hb with hb | hb
    · exact h.bound b hb
    · cases mem_singleton.mp hb
      exact mem_cons_self

theorem drop (hi : slots[i]? = some (some a)) :
    Accounted ((a, n - 1) :: rest) (slots.set i none) where
  nodup := h.nodup
  count := by
    obtain ⟨hlt, hget⟩ := List.getElem?_eq_some_iff.mp hi
    intro x hx
    rcases mem_cons.mp hx with rfl | hx
    · rw [count_set hlt, hget, ← h.count_cons]
      simp
    · have hne := h.ne_of_mem hx
      rw [count_set hlt, hget, ← h.count x (mem_cons_of_mem _ hx)]
      have hne' : (some a == some x.1) = false := by simpa using Ne.symm hne
      simp [hne']
  bound b hb := by
    rcases mem_or_eq_of_mem_set hb with hb | hb
    · exact h.bound b hb
    · cases hb

theorem pos (hi : slots[i]? = some (some a)) : 0 < n := by
  rw [h.count_cons, count_pos_iff]
  exact mem_of_getElem? hi

end

end Accounted

end RefCount
