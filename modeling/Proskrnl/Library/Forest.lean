import Mathlib

/-!
# Forests of parent links

A forest is given by the parent of each of its nodes. `Under f a b` says that `b` is met on the way
up from `a`. The lemmas say what a climb visits, and what hanging a leaf under another node changes.
-/

namespace Forest
open Relation List Option

variable {ι : Type*} {f : ι → Option ι} {a b c x y : ι} {n : ℕ}

def Up (f : ι → Option ι) (a b : ι) : Prop := f a = some b

/-- The second node is the first one or above it. -/
def Under (f : ι → Option ι) : ι → ι → Prop := ReflTransGen (Up f)

theorem Under.refl (a : ι) : Under f a a := ReflTransGen.refl

theorem Under.trans (hab : Under f a b) (hbc : Under f b c) : Under f a c := ReflTransGen.trans hab hbc

theorem Under.of_up (h : f a = some b) : Under f a b := ReflTransGen.single h

theorem under_iff : Under f a b ↔ a = b ∨ ∃ c, f a = some c ∧ Under f c b := by
  constructor
  · intro h
    rcases ReflTransGen.cases_head h with heq | ⟨c, hup, hrest⟩
    · exact .inl heq
    · exact .inr ⟨c, hup, hrest⟩
  · rintro (rfl | ⟨c, hup, hrest⟩)
    · exact .refl a
    · exact (Under.of_up hup).trans hrest

section
variable [DecidableEq ι] {stop : Option ι} {l : List ι} {start : Option ι}

/-- The nodes from one on up to a stop, `none` being the end of the way; nothing when the stop is not
met with this fuel. -/
def climb (f : ι → Option ι) (stop : Option ι) : ℕ → Option ι → Option (List ι)
  | 0, a => if a = stop then some [] else none
  | n + 1, a =>
    if a = stop then some []
    else a.bind fun a => (climb f stop n (f a)).map (a :: ·)

/-- Is a node met on the way up? -/
def search (f : ι → Option ι) (c : ι) : ℕ → Option ι → Option Bool
  | _, none => some false
  | 0, some _ => none
  | n + 1, some a => if a = c then some true else search f c n (f a)

theorem mem_climb (h : climb f none n start = some l) :
    b ∈ l ↔ ∃ a, start = some a ∧ Under f a b := by
  induction n generalizing start l with
  | zero =>
    rw [climb] at h
    split at h
    · rename_i hstart
      cases h
      simp [hstart]
    · cases h
  | succ n ih =>
    rw [climb] at h
    split at h
    · rename_i hstart
      cases h
      simp [hstart]
    · cases start with
      | none => contradiction
      | some a =>
        obtain ⟨l', hl', rfl⟩ := map_eq_some_iff.mp h
        rw [mem_cons, ih hl']
        constructor
        · rintro (rfl | hup)
          · exact ⟨b, rfl, .refl b⟩
          · exact ⟨a, rfl, under_iff.mpr (.inr hup)⟩
        · rintro ⟨a', ⟨⟩, hab⟩
          exact (under_iff.mp hab).imp Eq.symm id

end

theorem eq_of_under_leaf (hleaf : ∀ x, f x ≠ some a) (h : Under f c a) : c = a := by
  rcases ReflTransGen.cases_tail h with heq | ⟨x, -, hup⟩
  · exact heq.symm
  · exact absurd hup (hleaf x)

/-- The way up from a node does not depend on the parent of a leaf that it does not start at. -/
theorem Under.of_leaf {g : ι → Option ι} (hsame : ∀ z, z ≠ a → g z = f z)
    (hleaf : ∀ z, z ≠ a → f z ≠ some a) (hx : x ≠ a) (h : Under f x y) : Under g x y := by
  induction h using ReflTransGen.head_induction_on with
  | refl => exact .refl y
  | @head x z hup _ ih =>
    have hz : z ≠ a := by
      rintro rfl
      exact hleaf x hx hup
    exact (Under.of_up ((hsame x hx).trans hup)).trans (ih hz)

theorem under_update_leaf [DecidableEq ι] {entry : Option ι} (hleaf : ∀ z, f z ≠ some a) (hx : x ≠ a) :
    Under (Function.update f a entry) x y ↔ Under f x y := by
  have hsame (z : ι) (hz : z ≠ a) : Function.update f a entry z = f z := Function.update_of_ne hz ..
  refine ⟨Under.of_leaf (fun z hz => (hsame z hz).symm) (fun z hz => ?_) hx,
    Under.of_leaf hsame (fun z _ => hleaf z) hx⟩
  rw [hsame z hz]
  exact hleaf z

end Forest
