import Mathlib.Logic.Basic

/-!
# Loops

A loop is given by its body, which goes on with another state or ends with a result. A loop ends by a
measure that every round makes smaller (`run_of_measure`), and does not where a set of states is never
left (`not_ends`). A function that counts its rounds down computes what the loop does, as long as the
loop has ended by then (`run_eq`).
-/

namespace Proskrnl.Loops

variable {σ ρ τ : Type} {body : σ → σ ⊕ ρ} {s : σ} {r : ρ} {n : Nat}

/-- The result of a loop that ends within `n` rounds. -/
def run (body : σ → σ ⊕ ρ) : Nat → σ → Option ρ
  | 0, _ => none
  | n + 1, s =>
    match body s with
    | .inl s' => run body n s'
    | .inr r => some r

def Ends (body : σ → σ ⊕ ρ) (s : σ) : Prop := ∃ n r, run body n s = some r

/-- A loop around another one: what it does with a result of the inner loop. -/
def around (body : σ → σ ⊕ ρ) (after : ρ → σ ⊕ τ) (s : σ) : σ ⊕ τ :=
  match body s with
  | .inl s' => .inl s'
  | .inr r => after r

theorem run_inl {s' : σ} (h : body s = .inl s') : run body (n + 1) s = run body n s' := by
  rw [run, h]

theorem run_inr (h : body s = .inr r) : run body (n + 1) s = some r := by
  rw [run, h]

theorem run_of_measure {I : σ → Prop} {μ : σ → Nat}
    (hstep : ∀ s s', I s → body s = .inl s' → I s' ∧ μ s' < μ s) (hs : I s) (hn : μ s < n) :
    ∃ r, run body n s = some r := by
  induction n generalizing s with
  | zero => exact absurd hn (Nat.not_lt_zero _)
  | succ n ih =>
    cases hbody : body s with
    | inl s' =>
      obtain ⟨hs', hlt⟩ := hstep s s' hs hbody
      rw [run_inl hbody]
      exact ih hs' (Nat.lt_of_lt_of_le hlt (Nat.le_of_lt_succ hn))
    | inr r => exact ⟨r, run_inr hbody⟩

theorem ends_of_measure {I : σ → Prop} {μ : σ → Nat}
    (hstep : ∀ s s', I s → body s = .inl s' → I s' ∧ μ s' < μ s) (hs : I s) : Ends body s :=
  ⟨μ s + 1, run_of_measure hstep hs (Nat.lt_succ_self _)⟩

theorem not_ends {I : σ → Prop} (hstep : ∀ s, I s → ∃ s', body s = .inl s' ∧ I s') (hs : I s) :
    ¬ Ends body s := by
  rintro ⟨n, r, hrun⟩
  induction n generalizing s with
  | zero => cases hrun
  | succ n ih =>
    obtain ⟨s', hbody, hs'⟩ := hstep s hs
    rw [run_inl hbody] at hrun
    exact ih hs' hrun

theorem run_eq {f : Nat → σ → ρ} (hf : ∀ n s, f (n + 1) s = Sum.elim (f n) id (body s))
    (hrun : run body n s = some r) : f n s = r := by
  induction n generalizing s with
  | zero => cases hrun
  | succ n ih =>
    rw [hf]
    cases hbody : body s with
    | inl s' =>
      rw [run_inl hbody] at hrun
      exact ih hrun
    | inr r' =>
      rw [run_inr hbody] at hrun
      exact Option.some.inj hrun

end Proskrnl.Loops
