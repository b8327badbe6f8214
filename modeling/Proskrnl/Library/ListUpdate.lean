import Mathlib

/-!
# Keyed updates of lists

Sibling lists searched from the front: `updateFirst` changes the first element with a property, and
`List.orderedInsert` of Mathlib places an element before the first one that is greater. The lemmas
say how insertion at a strict order goes with filtering and mapping, which is what relates a list
to the part of it that is kept.
-/

namespace ListUpdate
open List Option
variable {α β : Type*}

/-- Apply `f` to the first element with property `p`; `none` when there is none or `f` refuses. -/
def updateFirst (p : α → Bool) (f : α → Option α) : List α → Option (List α)
  | [] => none
  | a :: l => if p a then (f a).map (· :: l) else (updateFirst p f l).map (a :: ·)

theorem updateFirst_append {p : α → Bool} {f : α → Option α} {l1 l2 : List α} {c : α}
    (h1 : ∀ a ∈ l1, p a = false) (hc : p c = true) :
    updateFirst p f (l1 ++ c :: l2) = (f c).map fun c' => l1 ++ c' :: l2 := by
  induction l1 with
  | nil => simp [updateFirst, hc]
  | cons a l1 ih =>
    have ha : p a = false := h1 a mem_cons_self
    rw [cons_append, updateFirst, ha, ih fun b hb => h1 b (.tail _ hb)]
    cases f c <;> simp

theorem findIdx?_eq_some_iff_append {p : α → Bool} {l : List α} {i : Nat} :
    l.findIdx? p = some i ↔
      ∃ l1 c l2, l = l1 ++ c :: l2 ∧ l1.length = i ∧ p c = true ∧ ∀ a ∈ l1, p a = false := by
  induction l generalizing i with
  | nil => simp
  | cons a l ih =>
    rw [findIdx?_cons]
    by_cases ha : p a = true
    · simp only [ha, if_true, some.injEq]
      constructor
      · rintro rfl
        exact ⟨[], a, l, rfl, rfl, ha, by simp⟩
      · rintro ⟨l1, c, l2, hl, rfl, hc, h1⟩
        cases l1 with
        | nil => rfl
        | cons b l1 =>
          cases hl
          exact absurd ha (by simp [h1 a mem_cons_self])
    · have ha' : p a = false := by simpa using ha
      simp only [ha', Bool.false_eq_true, if_false, map_eq_some_iff, ih]
      constructor
      · rintro ⟨j, ⟨l1, c, l2, rfl, rfl, hc, h1⟩, rfl⟩
        refine ⟨a :: l1, c, l2, rfl, rfl, hc, ?_⟩
        rintro b (_ | ⟨_, hb⟩)
        · exact ha'
        · exact h1 b hb
      · rintro ⟨l1, c, l2, hl, rfl, hc, h1⟩
        cases l1 with
        | nil => cases hl; exact absurd hc ha
        | cons b l1 =>
          cases hl
          exact ⟨l1.length, ⟨l1, c, l2, rfl, rfl, hc, fun x hx => h1 x (.tail _ hx)⟩, rfl⟩

theorem updateFirst_eq_none {p : α → Bool} {f : α → Option α} {l : List α}
    (h : l.findIdx? p = none) : updateFirst p f l = none := by
  induction l with
  | nil => rfl
  | cons a l ih =>
    rw [findIdx?_eq_none_iff] at h
    have ha := h a mem_cons_self
    rw [updateFirst, ha, ih (findIdx?_eq_none_iff.mpr fun b hb => h b (.tail _ hb))]
    rfl

theorem updateFirst_bind {p : α → Bool} {f g : α → Option α}
    (h : ∀ a a', p a = true → f a = some a' → p a' = true) (l : List α) :
    (updateFirst p f l).bind (updateFirst p g) = updateFirst p (fun a => (f a).bind g) l := by
  induction l with
  | nil => rfl
  | cons a l ih =>
    rw [updateFirst, updateFirst]
    by_cases ha : p a = true
    · rw [if_pos ha, if_pos ha]
      cases hf : f a with
      | none => rfl
      | some a' => simp [updateFirst, h a a' ha hf]
    · rw [if_neg ha, if_neg ha, ← ih]
      cases updateFirst p f l with
      | none => rfl
      | some l' => simp [updateFirst, ha]

theorem updateFirst_mono {p : α → Bool} {f g : α → Option α}
    (h : ∀ a a', f a = some a' → g a = some a') {l l' : List α}
    (hl : updateFirst p f l = some l') : updateFirst p g l = some l' := by
  induction l generalizing l' with
  | nil => cases hl
  | cons a l ih =>
    rw [updateFirst] at hl ⊢
    split at hl
    · rename_i ha
      obtain ⟨a', ha', rfl⟩ := map_eq_some_iff.mp hl
      rw [if_pos ha, h a a' ha']; rfl
    · rename_i ha
      obtain ⟨l1, hl1, rfl⟩ := map_eq_some_iff.mp hl
      rw [if_neg ha, ih hl1]; rfl

theorem updateFirst_eq_self {p : α → Bool} {f : α → Option α}
    (h : ∀ a a', f a = some a' → a' = a) {l l' : List α} (hl : updateFirst p f l = some l') :
    l' = l := by
  induction l generalizing l' with
  | nil => cases hl
  | cons a l ih =>
    rw [updateFirst] at hl
    split at hl
    · obtain ⟨a', ha', rfl⟩ := map_eq_some_iff.mp hl
      rw [h a a' ha']
    · obtain ⟨l1, hl1, rfl⟩ := map_eq_some_iff.mp hl
      rw [ih hl1]

theorem updateFirst_map {p : α → Bool} {q : β → Bool} {f : α → Option α} {g : β → Option β}
    {h : α → β} (hp : ∀ a, q (h a) = p a) (hf : ∀ a, (f a).map h = g (h a)) (l : List α) :
    (updateFirst p f l).map (List.map h) = updateFirst q g (l.map h) := by
  induction l with
  | nil => rfl
  | cons a l ih =>
    rw [map_cons, updateFirst, updateFirst, hp]
    by_cases ha : p a = true
    · rw [if_pos ha, if_pos ha, ← hf]
      cases f a <;> simp
    · rw [if_neg ha, if_neg ha, ← ih]
      cases updateFirst p f l <;> simp

section
variable (l1 l2 : List α) (c : α)

@[simp] theorem getElem?_append_cons : (l1 ++ c :: l2)[l1.length]? = some c := by simp

@[simp] theorem set_append_cons (c' : α) : (l1 ++ c :: l2).set l1.length c' = l1 ++ c' :: l2 := by
  simp

@[simp] theorem modify_append_cons (f : α → α) :
    (l1 ++ c :: l2).modify l1.length f = l1 ++ f c :: l2 := by
  induction l1 with
  | nil => rfl
  | cons a l1 ih => simpa using ih

@[simp] theorem eraseIdx_append_cons : (l1 ++ c :: l2).eraseIdx l1.length = l1 ++ l2 := by
  induction l1 with
  | nil => rfl
  | cons a l1 ih => simpa using ih

end

theorem eq_append_of_getElem? {l : List α} {i : Nat} {c : α} (h : l[i]? = some c) :
    ∃ l1 l2, l = l1 ++ c :: l2 ∧ l1.length = i := by
  obtain ⟨hi, rfl⟩ := List.getElem?_eq_some_iff.mp h
  exact ⟨l.take i, l.drop (i + 1), by simp, by simp; omega⟩

section
variable {r : α → α → Prop} [DecidableRel r]

theorem orderedInsert_append {a : α} {l : List α} (h : ∀ b ∈ l, ¬ r a b) :
    l.orderedInsert r a = l ++ [a] := by
  induction l with
  | nil => rfl
  | cons b l ih =>
    rw [orderedInsert_cons, if_neg (h b mem_cons_self), ih fun c hc => h c (.tail _ hc)]
    rfl

/-- Insertion of an element comparable with all others keeps a list in strict order. -/
theorem pairwise_orderedInsert (htrans : ∀ a b c, r a b → r b c → r a c) {a : α} {l : List α}
    (hl : l.Pairwise r) (ha : ∀ b ∈ l, r a b ∨ r b a) : (l.orderedInsert r a).Pairwise r := by
  induction l with
  | nil => simp
  | cons b l ih =>
    obtain ⟨hb, hl⟩ := pairwise_cons.mp hl
    rw [orderedInsert_cons]
    split
    · rename_i hab
      refine pairwise_cons.mpr ⟨?_, pairwise_cons.mpr ⟨hb, hl⟩⟩
      rintro c (_ | ⟨_, hc⟩)
      · exact hab
      · exact htrans _ _ _ hab (hb c hc)
    · rename_i hab
      refine pairwise_cons.mpr ⟨?_, ih hl fun c hc => ha c (.tail _ hc)⟩
      intro c hc
      rcases (mem_orderedInsert r).mp hc with rfl | hc
      · exact (ha b mem_cons_self).resolve_left hab
      · exact hb c hc

/-- Insertion commutes with keeping a part of a list in strict order and renaming it along the
order. -/
theorem filterMap_orderedInsert {s : β → β → Prop} [DecidableRel s] {f : α → Option β}
    (htrans : ∀ a b c, r a b → r b c → r a c) {a : α} {l : List α} (hl : l.Pairwise r)
    (hf : ∀ b ∈ l, ∀ x y, f a = some x → f b = some y → (r a b ↔ s x y)) :
    (l.orderedInsert r a).filterMap f =
      (f a).elim (l.filterMap f) fun x => (l.filterMap f).orderedInsert s x := by
  induction l with
  | nil => cases h : f a <;> simp [h]
  | cons b l ih =>
    obtain ⟨hb, hl⟩ := pairwise_cons.mp hl
    have ih := ih hl fun c hc => hf c (.tail _ hc)
    rw [orderedInsert_cons]
    cases hfa : f a with
    | none =>
      rw [hfa, elim_none] at ih
      rw [elim_none]
      split
      · rw [filterMap_cons_none hfa]
      · cases hfb : f b <;> simp only [filterMap_cons, hfb, ih]
    | some x =>
      rw [hfa, elim_some] at ih
      rw [elim_some]
      split
      · rename_i hab
        rw [filterMap_cons_some hfa]
        -- everything kept after the insertion point sorts after `x` as well
        cases hfb : f b with
        | some y =>
          have hxy := (hf b mem_cons_self x y hfa hfb).mp hab
          simp only [filterMap_cons, hfb, orderedInsert_cons, if_pos hxy]
        | none =>
          simp only [filterMap_cons, hfb]
          cases hrest : l.filterMap f with
          | nil => rfl
          | cons y ys =>
            obtain ⟨c, hc, hfc⟩ : ∃ c ∈ l, f c = some y := by
              have : y ∈ l.filterMap f := by rw [hrest]; exact mem_cons_self
              exact mem_filterMap.mp this
            have hxy := (hf c (.tail _ hc) x y hfa hfc).mp (htrans _ _ _ hab (hb c hc))
            rw [orderedInsert_cons, if_pos hxy]
      · rename_i hab
        cases hfb : f b with
        | some y =>
          have hxy : ¬ s x y := fun h => hab ((hf b mem_cons_self x y hfa hfb).mpr h)
          simp only [filterMap_cons, hfb, orderedInsert_cons, if_neg hxy, ih]
        | none => simp only [filterMap_cons, hfb, ih]

end

end ListUpdate
