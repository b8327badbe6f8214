import Mathlib

/-!
# Queues of messages

A queue of messages that is read either a message at a time or as a stream of bytes. `Log` is what was
put in and taken out, the last first; `Faithful` says that every read took what the queue held then.
From it follow that nothing is lost, duplicated or reordered, and that reads by message keep the
boundaries.
-/

namespace Proskrnl.MessageQueue
open List

variable {α : Type}

inductive Mode
  | bytes
  | message
  deriving DecidableEq

/-- A read of at most `n` bytes across messages. -/
def readBytes : Nat → List (List α) → List α × List (List α)
  | _, [] => ([], [])
  | n, m :: q =>
    if n = 0 then ([], m :: q)
    else if m.length ≤ n then
      let (taken, q') := readBytes (n - m.length) q
      (m ++ taken, q')
    else (m.take n, m.drop n :: q)

/-- A read of at most `n` bytes of the first message; whether a tail of it is left. -/
def readMessage (n : Nat) : List (List α) → List α × Bool × List (List α)
  | [] => ([], false, [])
  | m :: q => if m.length ≤ n then (m, false, q) else (m.take n, true, m.drop n :: q)

def readResult (mode : Mode) (n : Nat) (q : List (List α)) : List α × Bool :=
  match mode with
  | .bytes => ((readBytes n q).1, false)
  | .message => ((readMessage n q).1, (readMessage n q).2.1)

def readRest (mode : Mode) (n : Nat) (q : List (List α)) : List (List α) :=
  match mode with
  | .bytes => (readBytes n q).2
  | .message => (readMessage n q).2.2

theorem readBytes_append_flatten (n : Nat) (q : List (List α)) :
    (readBytes n q).1 ++ (readBytes n q).2.flatten = q.flatten := by
  induction q generalizing n with
  | nil => rfl
  | cons m q ih =>
    rw [readBytes]
    split
    · rfl
    · split
      · simp only [append_assoc, flatten_cons, ih]
      · simp only [flatten_cons, ← append_assoc, take_append_drop]

theorem readBytes_eq_take (n : Nat) (q : List (List α)) :
    (readBytes n q).1 = q.flatten.take n := by
  induction q generalizing n with
  | nil => simp [readBytes]
  | cons m q ih =>
    rw [readBytes]
    split
    · rename_i h
      rw [h, take_zero]
    · split
      · rename_i h
        rw [flatten_cons, take_append, take_of_length_le h, ← ih]
      · rename_i h
        rw [flatten_cons, take_append_of_le_length (by omega)]

theorem readMessage_append_flatten (n : Nat) (q : List (List α)) :
    (readMessage n q).1 ++ (readMessage n q).2.2.flatten = q.flatten := by
  cases q with
  | nil => rfl
  | cons m q =>
    rw [readMessage]
    split
    · rfl
    · simp only [flatten_cons, ← append_assoc, take_append_drop]

theorem readResult_append_flatten (mode : Mode) (n : Nat) (q : List (List α)) :
    (readResult mode n q).1 ++ (readRest mode n q).flatten = q.flatten := by
  cases mode with
  | bytes => exact readBytes_append_flatten n q
  | message => exact readMessage_append_flatten n q

inductive Entry (α : Type)
  /-- A message is put in. -/
  | accepted (m : List α)
  /-- A read of at most `n` bytes takes some; whether a tail of the message is left. -/
  | delivered (mode : Mode) (n : Nat) (taken : List α) (more : Bool)

def remaining : List (Entry α) → List (List α)
  | [] => []
  | .accepted m :: l => remaining l ++ [m]
  | .delivered mode n _ _ :: l => readRest mode n (remaining l)

def Faithful : List (Entry α) → Prop
  | [] => True
  | .accepted _ :: l => Faithful l
  | .delivered mode n taken more :: l =>
    remaining l ≠ [] ∧ (taken, more) = readResult mode n (remaining l) ∧ Faithful l

def acceptedMessages : List (Entry α) → List (List α)
  | [] => []
  | .accepted m :: l => acceptedMessages l ++ [m]
  | .delivered .. :: l => acceptedMessages l

def deliveredBytes : List (Entry α) → List α
  | [] => []
  | .accepted _ :: l => deliveredBytes l
  | .delivered _ _ taken _ :: l => deliveredBytes l ++ taken

theorem Faithful.deliveredBytes_append {l : List (Entry α)} (h : Faithful l) :
    deliveredBytes l ++ (remaining l).flatten = (acceptedMessages l).flatten := by
  induction l with
  | nil => rfl
  | cons e l ih =>
    cases e with
    | accepted m =>
      rw [deliveredBytes, remaining, acceptedMessages, flatten_append, flatten_append,
        ← append_assoc, ih h]
    | delivered mode n taken more =>
      obtain ⟨-, hresult, hl⟩ := h
      have htaken : taken = (readResult mode n (remaining l)).1 := congrArg Prod.fst hresult
      rw [deliveredBytes, remaining, acceptedMessages, append_assoc, htaken,
        readResult_append_flatten, ih hl]

theorem Faithful.deliveredBytes_start {l : List (Entry α)} (h : Faithful l) :
    deliveredBytes l <+: (acceptedMessages l).flatten :=
  ⟨(remaining l).flatten, h.deliveredBytes_append⟩

def ByMessage : List (Entry α) → Prop
  | [] => True
  | .accepted _ :: l => ByMessage l
  | .delivered mode _ _ _ :: l => mode = .message ∧ ByMessage l

/-- The messages that the reads put together, the first first, and the part of the next one: a read
that leaves a tail is continued by the next read. -/
def assembled : List (Entry α) → List (List α) × List α
  | [] => ([], [])
  | .accepted _ :: l => assembled l
  | .delivered _ _ taken more :: l =>
    let (whole, part) := assembled l
    if more then (whole, part ++ taken) else (whole ++ [part ++ taken], [])

/-- The messages of a queue whose first one was begun. -/
def resumed (part : List α) : List (List α) → List (List α)
  | [] => []
  | m :: q => (part ++ m) :: q

/-- Reads by message give back the messages that were put in, each with its boundaries: those put
together, then the one begun, then the rest. -/
theorem Faithful.assembled_append {l : List (Entry α)} (h : Faithful l) (hmessage : ByMessage l) :
    (assembled l).1 ++ resumed (assembled l).2 (remaining l) = acceptedMessages l ∧
      (remaining l = [] → (assembled l).2 = []) := by
  induction l with
  | nil => exact ⟨rfl, fun _ => rfl⟩
  | cons e l ih =>
    cases e with
    | accepted m =>
      obtain ⟨heq, hnil⟩ := ih h hmessage
      refine ⟨?_, fun hnone => ?_⟩
      · rw [assembled, remaining, acceptedMessages, ← heq, append_assoc]
        congr 1
        cases hq : remaining l with
        | nil => rw [hnil hq]; rfl
        | cons m' q => rfl
      · rw [remaining] at hnone
        exact absurd hnone (by simp)
    | delivered mode n taken more =>
      obtain ⟨hsome, hresult, hl⟩ := h
      obtain ⟨hmode, hmessage⟩ := hmessage
      obtain ⟨heq, -⟩ := ih hl hmessage
      subst hmode
      cases hq : remaining l with
      | nil => exact absurd hq hsome
      | cons m q =>
        rw [hq] at hresult heq
        rw [readResult, readMessage] at hresult
        rw [assembled, remaining, acceptedMessages, hq, readRest, readMessage]
        by_cases hle : m.length ≤ n
        · -- the rest of the message was read
          rw [if_pos hle] at hresult ⊢
          obtain ⟨rfl, rfl⟩ := Prod.mk.inj hresult
          refine ⟨?_, fun _ => rfl⟩
          rw [← heq]
          cases q with
          | nil => simp [resumed]
          | cons m' q => simp [resumed]
        · -- a tail of it is left
          rw [if_neg hle] at hresult ⊢
          obtain ⟨rfl, rfl⟩ := Prod.mk.inj hresult
          refine ⟨?_, nofun⟩
          simp only [if_true, resumed, append_assoc, take_append_drop]
          exact heq

end Proskrnl.MessageQueue
