import Mathlib.Data.List.Basic

/-!
# Calls on a bounded stack

A call takes a frame of the stack for as long as it runs, and one that finds no room runs off the
stack (`nest`). A search that tries calls in turn answers as it would with all the room it needs
(`firstYes_sound`), and does answer where each of its calls does (`isSome_firstYes`).
-/

namespace CallStack
variable {α β : Type*}

/-- A call where there is room for `frames` more: the callee runs with one frame less, and `none` where
it would run off the stack. -/
def nest (frames : Nat) (callee : Nat → Option β) : Option β :=
  match frames with
  | 0 => none
  | frames + 1 => callee frames

@[simp] theorem nest_zero (callee : Nat → Option β) : nest 0 callee = none := rfl

@[simp] theorem nest_succ (frames : Nat) (callee : Nat → Option β) :
    nest (frames + 1) callee = callee frames := rfl

theorem nest_eq_some {frames : Nat} {callee : Nat → Option β} {b : β} :
    nest frames callee = some b ↔ ∃ room, frames = room + 1 ∧ callee room = some b := by
  cases frames with
  | zero => simp
  | succ room => simp

/-- The calls are made in turn until one answers yes. -/
def firstYes (callee : α → Option Bool) : List α → Option Bool
  | [] => some false
  | a :: rest => do if ← callee a then return true else firstYes callee rest

variable {callee : α → Option Bool} {calls : List α}

theorem firstYes_cons (a : α) :
    firstYes callee (a :: calls) =
      (callee a).bind fun yes => if yes then some true else firstYes callee calls := rfl

theorem firstYes_none {a : α} (h : callee a = none) : firstYes callee (a :: calls) = none := by
  rw [firstYes_cons, h, Option.bind_none]

theorem firstYes_sound {answer : α → Bool} {b : Bool}
    (h : ∀ a ∈ calls, ∀ b, callee a = some b → answer a = b)
    (hyes : firstYes callee calls = some b) : calls.any answer = b := by
  induction calls with
  | nil => exact Option.some.inj hyes
  | cons a rest ih =>
    rw [firstYes_cons, Option.bind_eq_some_iff] at hyes
    obtain ⟨yes, ha, hrest⟩ := hyes
    rw [List.any_cons, h a List.mem_cons_self yes ha]
    cases yes with
    | true => exact Option.some.inj hrest
    | false => exact ih (fun a ha => h a (List.mem_cons_of_mem _ ha)) hrest

theorem isSome_firstYes (h : ∀ a ∈ calls, (callee a).isSome) : (firstYes callee calls).isSome := by
  induction calls with
  | nil => rfl
  | cons a rest ih =>
    obtain ⟨yes, ha⟩ := Option.isSome_iff_exists.mp (h a List.mem_cons_self)
    rw [firstYes_cons, ha, Option.bind_some]
    cases yes with
    | true => rfl
    | false => exact ih fun a ha => h a (List.mem_cons_of_mem _ ha)

end CallStack
