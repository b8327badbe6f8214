import Mathlib

/-!
# Outcomes of partial computations

`Ends allowed x Q`: the computation `x` gives a result with `Q`, or it stops with an error that is
allowed. The rules follow the shape of the computation, so that one pass over a program shows both
what it keeps and which errors it cannot meet.
-/

namespace Proskrnl.Outcome

variable {ε α β : Type}

def Ends (allowed : ε → Prop) (x : Except ε α) (Q : α → Prop) : Prop :=
  match x with
  | .ok a => Q a
  | .error e => allowed e

variable {allowed : ε → Prop} {x : Except ε α} {Q R : α → Prop}

theorem Ends.ok {a : α} (h : Q a) : Ends allowed (.ok a) Q := h

theorem Ends.error {e : ε} (h : allowed e) : Ends allowed (.error e : Except ε α) Q := h

section
variable (h : Ends allowed x Q)
include h

theorem Ends.mono (hQ : ∀ a, Q a → R a) : Ends allowed x R := by
  cases x with
  | ok a => exact hQ a h
  | error e => exact h

theorem Ends.imp {allowed' : ε → Prop} (he : ∀ e, allowed e → allowed' e)
    (hQ : ∀ a, Q a → R a) : Ends allowed' x R := by
  cases x with
  | ok a => exact hQ a h
  | error e => exact he e h

theorem Ends.bind {f : α → Except ε β} {P : β → Prop}
    (hf : ∀ a, Q a → Ends allowed (f a) P) : Ends allowed (x >>= f) P := by
  cases x with
  | ok a => exact hf a h
  | error e => exact h

theorem Ends.map {f : α → β} {P : β → Prop} (hf : ∀ a, Q a → P (f a)) :
    Ends allowed (x.map f) P := by
  cases x with
  | ok a => exact hf a h
  | error e => exact h

theorem Ends.of_ok {a : α} (hx : x = .ok a) : Q a := by
  subst hx; exact h

theorem Ends.of_error {e : ε} (hx : x = .error e) : allowed e := by
  subst hx; exact h

end

theorem Ends.ite {c : Prop} [Decidable c] {y : Except ε α} (ht : c → Ends allowed x Q)
    (he : ¬ c → Ends allowed y Q) : Ends allowed (if c then x else y) Q := by
  by_cases h : c
  · rw [if_pos h]; exact ht h
  · rw [if_neg h]; exact he h

def Gives (x : Except ε α) (Q : α → Prop) : Prop := ∃ a, x = .ok a ∧ Q a

theorem Gives.ok {a : α} (h : Q a) : Gives (.ok a : Except ε α) Q := ⟨a, rfl, h⟩

theorem Gives.mono (h : Gives x Q) (hQ : ∀ a, Q a → R a) : Gives x R := by
  obtain ⟨a, hx, ha⟩ := h
  exact ⟨a, hx, hQ a ha⟩

theorem ok_bind (a : α) (f : α → Except ε β) : (Except.ok a >>= f) = f a := rfl

/-- A sequence that gives a result took both of its parts. -/
theorem bind_eq_ok {f : α → Except ε β} {b : β} (h : x >>= f = .ok b) :
    ∃ a, x = .ok a ∧ f a = .ok b := by
  cases x with
  | ok a => exact ⟨a, rfl, h⟩
  | error e => cases h

theorem map_eq_ok {f : α → β} {b : β} (h : x.map f = .ok b) : ∃ a, x = .ok a ∧ f a = b := by
  cases x with
  | ok a => exact ⟨a, rfl, Except.ok.inj h⟩
  | error e => cases h

end Proskrnl.Outcome
