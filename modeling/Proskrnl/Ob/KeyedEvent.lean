import Proskrnl.Abi.Status

/-!
# Keyed events

`ObpKeyedEventOperation` of `kernel/ob/sync.c`, the engine of `NtWaitForKeyedEvent` and
`NtReleaseKeyedEvent`, with what `KeWaitForSingleObject`, `KeSetEvent` and `KiUnwaitThread` do to a
wait on the private event of a parked call. A step is what runs without another thread in between: a
call up to its park, the end of a wait from outside, and the rest of a call behind its wait.

An entry of a waiter list lives on the stack of the thread that parked it, so the list names the
thread. Three fields record what the code does and are read by no code: the number of calls, who woke
whom, and what the calls returned.
-/

namespace Proskrnl.Ob
open List Option

/-- `OBP_KEYED_EVENT`: the instance for a handle of 0, or an object body. -/
inductive KeyedEvent
  | critSec
  | body (n : Nat)
  deriving DecidableEq

/-- A call of `ObpKeyedEventOperation`, with its number. -/
structure KeyedCall where
  number : Nat
  event : KeyedEvent
  process : Nat
  key : UInt64
  release : Bool
  deriving DecidableEq

/-- `OBP_KEYED_WAITER`, with the wait of its thread. -/
structure KeyedWaiter where
  call : KeyedCall
  alertable : Bool
  /-- The wait has a deadline. -/
  timed : Bool
  /-- `wake.header.signalState`. -/
  wake : Bool := false
  /-- `waitStatus`, when the wait has ended. -/
  waitStatus : Option NtStatus := none

/-- The fields of a thread that the wait reads, and the stack frame of a parked call. -/
structure KeyedThread where
  process : Nat
  isUser : Bool := true
  terminating : Bool := false
  rundownWait : Bool := false
  userApcPending : Bool := false
  alerted : Bool := false
  parked : Option KeyedWaiter := none

structure KeyedState where
  threads : Nat → KeyedThread
  waiters : KeyedEvent → List Nat := fun _ => []
  /-- `ObpCritSecKeyedEventReady`. -/
  critSecReady : Bool := false
  calls : Nat := 0
  /-- The parked calls that were woken, each with the call that woke it. -/
  wakes : List (KeyedCall × KeyedCall) := []
  returned : List (KeyedCall × NtStatus) := []

/-- The arguments of a call. `capture` is the status of `KiCaptureTimeout`; `handle` is what
`ObReferenceObjectByHandle` answers, when the handle is not 0. -/
structure KeyedArguments where
  handle : Option (NtStatus × Nat)
  key : UInt64
  alertable : Bool
  timeout : Option Int64
  capture : NtStatus
  release : Bool

def KeyedArguments.event (args : KeyedArguments) : KeyedEvent :=
  match args.handle with
  | none => .critSec
  | some (_, n) => .body n

/-- Why a call ends before it looks at a list: the key is odd, the timeout cannot be captured, or the
handle cannot be resolved. -/
def KeyedArguments.refusal (args : KeyedArguments) : Option NtStatus :=
  if args.key &&& 1 ≠ 0 then some statusInvalidParameter1
  else if ntSuccess args.capture = false then some args.capture
  else
    match args.handle with
    | none => none
    | some (status, _) => if ntSuccess status = false then some status else none

namespace KeyedState

def setThread (s : KeyedState) (t : Nat) (th : KeyedThread) : KeyedState :=
  { s with threads := Function.update s.threads t th }

def setWaiters (s : KeyedState) (e : KeyedEvent) (l : List Nat) : KeyedState :=
  { s with waiters := Function.update s.waiters e l }

def setParked (s : KeyedState) (t : Nat) (w : Option KeyedWaiter) : KeyedState :=
  s.setThread t { s.threads t with parked := w }

def returns (s : KeyedState) (call : KeyedCall) (status : NtStatus) : KeyedState :=
  { s with returned := (call, status) :: s.returned }

section
variable (s : KeyedState) (t u : Nat) (th : KeyedThread) (e f : KeyedEvent) (l : List Nat)
  (w : Option KeyedWaiter)

@[simp] theorem threads_setThread :
    (s.setThread t th).threads u = if u = t then th else s.threads u := Function.update_apply ..

@[simp] theorem waiters_setThread : (s.setThread t th).waiters = s.waiters := rfl

@[simp] theorem waiters_setWaiters :
    (s.setWaiters e l).waiters f = if f = e then l else s.waiters f := Function.update_apply ..

@[simp] theorem threads_setWaiters : (s.setWaiters e l).threads = s.threads := rfl

@[simp] theorem waiters_setParked : (s.setParked t w).waiters = s.waiters := rfl

@[simp] theorem parked_setParked :
    ((s.setParked t w).threads u).parked = if u = t then w else (s.threads u).parked := by
  rw [setParked, threads_setThread]
  split <;> rfl

end

end KeyedState

/-- The loop over the waiters: whether the entry of a thread is the opposite party of a call. -/
def opposite (s : KeyedState) (call : KeyedCall) (t : Nat) : Bool :=
  match (s.threads t).parked with
  | none => false
  | some w => w.call.process == call.process && w.call.key == call.key &&
      w.call.release != call.release

/-- `KeSetEvent` on the event of a waiter: a wait on it ends, and takes the signal. -/
def KeyedWaiter.set (w : KeyedWaiter) : KeyedWaiter :=
  match w.waitStatus with
  | none => { w with waitStatus := some statusSuccess }
  | some _ => { w with wake := true }

/-- The opposite party is unlinked and woken, and the call returns. -/
def wakeOther (u : Nat) (w : KeyedWaiter) (call : KeyedCall) (s : KeyedState) : KeyedState :=
  let s := s.setWaiters call.event ((s.waiters call.event).erase u)
  let s := s.setParked u (some w.set)
  { s with wakes := (w.call, call) :: s.wakes }.returns call statusSuccess

/-- `KeWaitForSingleObject` on the event of a waiter, up to the park; `waitStatus` is set when the
wait ends at once. -/
def beginWait (timeout : Option Int64) (w : KeyedWaiter) (th : KeyedThread) : KeyedThread :=
  if th.terminating && th.isUser && !th.rundownWait then
    { th with parked := some { w with waitStatus := some statusThreadIsTerminating } }
  else if w.wake then
    { th with parked := some { w with wake := false, waitStatus := some statusSuccess } }
  else if w.alertable && (th.userApcPending || th.alerted) then
    if th.userApcPending then
      { th with parked := some { w with waitStatus := some statusUserApc } }
    else
      { th with alerted := false, parked := some { w with waitStatus := some statusAlerted } }
  else if timeout = some 0 then
    { th with parked := some { w with waitStatus := some statusTimeout } }
  else { th with parked := some w }

/-- The call is queued at the tail, and its thread waits. -/
def park (t : Nat) (args : KeyedArguments) (call : KeyedCall) (s : KeyedState) : KeyedState :=
  let w : KeyedWaiter := { call, alertable := args.alertable, timed := args.timeout.isSome }
  let s := s.setWaiters call.event (s.waiters call.event ++ [t])
  s.setThread t (beginWait args.timeout w (s.threads t))

/-- The instance for a handle of 0 is initialized on first use. -/
def readyCritSec (args : KeyedArguments) (s : KeyedState) : KeyedState :=
  if args.handle.isNone && !s.critSecReady then
    { s.setWaiters .critSec [] with critSecReady := true }
  else s

/-- `ObpKeyedEventOperation` by a thread, up to its return or its park. -/
def obpKeyedEventOperation (t : Nat) (args : KeyedArguments) (s : KeyedState) : KeyedState :=
  let call : KeyedCall :=
    { number := s.calls, event := args.event, process := (s.threads t).process, key := args.key,
      release := args.release }
  let s := { s with calls := s.calls + 1 }
  match args.refusal with
  | some status => s.returns call status
  | none =>
    let s := readyCritSec args s
    match (s.waiters call.event).find? (opposite s call) with
    | none => park t args call s
    | some u =>
      match (s.threads u).parked with
      | none => s
      | some w => wakeOther u w call s

/-- `ObpKeyedEventOperation` behind its wait: an entry that is no longer queued was met by the
opposite party. -/
def finishOperation (t : Nat) (s : KeyedState) : KeyedState :=
  match (s.threads t).parked with
  | none => s
  | some w =>
    match w.waitStatus with
    | none => s
    | some status =>
      let s := s.setParked t none
      if status = statusSuccess then s.returns w.call statusSuccess
      else if t ∈ s.waiters w.call.event then
        (s.setWaiters w.call.event ((s.waiters w.call.event).erase t)).returns w.call status
      else s.returns w.call statusSuccess

/-- `KiUnwaitThread` from outside, when the wait of the thread may end so. -/
def unwait (t : Nat) (status : NtStatus) (may : KeyedWaiter → Bool) (s : KeyedState) : KeyedState :=
  match (s.threads t).parked with
  | none => s
  | some w =>
    if w.waitStatus = none ∧ may w then s.setParked t (some { w with waitStatus := some status })
    else s

/-- One step: a call of a thread that is in none, the rest of a call, and what ends a wait. -/
inductive KeyedOp
  | call (t : Nat) (args : KeyedArguments)
  | finish (t : Nat)
  | expire (t : Nat)
  | alert (t : Nat)
  | queueApc (t : Nat)
  | terminate (t : Nat)
  /-- Other code sets the flags of a thread. -/
  | flags (t : Nat) (terminating rundownWait userApcPending alerted : Bool)

def KeyedOp.step (op : KeyedOp) (s : KeyedState) : KeyedState :=
  match op with
  | .call t args => if (s.threads t).parked.isNone then obpKeyedEventOperation t args s else s
  | .finish t => finishOperation t s
  | .expire t => unwait t statusTimeout KeyedWaiter.timed s
  | .alert t => unwait t statusAlerted KeyedWaiter.alertable s
  | .queueApc t => unwait t statusUserApc KeyedWaiter.alertable s
  | .terminate t =>
    unwait t statusThreadIsTerminating
      (fun _ => (s.threads t).isUser && !(s.threads t).rundownWait) s
  | .flags t terminating rundownWait userApcPending alerted =>
    s.setThread t { s.threads t with terminating, rundownWait, userApcPending, alerted }

def runKeyed (ops : List KeyedOp) (s : KeyedState) : KeyedState :=
  ops.foldl (fun s op => op.step s) s

def keyedStart (threads : Nat → KeyedThread) : KeyedState where
  threads t := { threads t with parked := none }

/-! ## Pairs -/

/-- Two calls meet: a wait and a release on one event, in one process, on one key. -/
structure Meets (a b : KeyedCall) : Prop where
  event : a.event = b.event
  process : a.process = b.process
  key : a.key = b.key
  release : a.release ≠ b.release

def KeyedState.matched (s : KeyedState) : List KeyedCall :=
  s.wakes.flatMap fun p => [p.1, p.2]

structure Paired (s : KeyedState) : Prop where
  /-- No call is in two pairs, or in one twice. -/
  once : s.matched.Nodup
  pairs : ∀ p ∈ s.wakes, Meets p.1 p.2
  /-- A call returns success exactly if it is in a pair. -/
  success : ∀ r ∈ s.returned, r.2 = statusSuccess ↔ r.1 ∈ s.matched
  /-- A call in a pair has returned success or is on its way back from its wait. -/
  settled : ∀ c ∈ s.matched, (c, statusSuccess) ∈ s.returned ∨
    ∃ t w, (s.threads t).parked = some w ∧ w.call = c ∧ t ∉ s.waiters c.event
  /-- An entry of a list belongs to a call that has not returned. -/
  live : ∀ e, ∀ t ∈ s.waiters e, ∃ w, (s.threads t).parked = some w ∧ w.call.event = e ∧
    ∀ r ∈ s.returned, r.1 ≠ w.call

/-- The invariant behind `Paired`: a parked call is queued until it is met, and only then does its
wait end in success. -/
structure KeyedInv (s : KeyedState) : Prop where
  numbered : ∀ {t w}, (s.threads t).parked = some w → w.call.number < s.calls
  counted : ∀ c ∈ s.matched, c.number < s.calls
  past : ∀ r ∈ s.returned, r.1.number < s.calls
  apart : ∀ {t u w w'}, (s.threads t).parked = some w → (s.threads u).parked = some w' →
    w.call = w'.call → t = u
  unreturned : ∀ {t w}, (s.threads t).parked = some w → ∀ r ∈ s.returned, r.1 ≠ w.call
  nodup : ∀ e, (s.waiters e).Nodup
  listed : ∀ e, ∀ t ∈ s.waiters e, ∃ w, (s.threads t).parked = some w ∧ w.call.event = e
  waiting : ∀ {t w}, (s.threads t).parked = some w → w.waitStatus = none →
    t ∈ s.waiters w.call.event
  woken : ∀ {t w}, (s.threads t).parked = some w → w.waitStatus = some statusSuccess →
    t ∉ s.waiters w.call.event
  met : ∀ {t w}, (s.threads t).parked = some w →
    (w.call ∈ s.matched ↔ t ∉ s.waiters w.call.event)
  once : s.matched.Nodup
  pairs : ∀ p ∈ s.wakes, Meets p.1 p.2
  success : ∀ r ∈ s.returned, r.2 = statusSuccess ↔ r.1 ∈ s.matched
  settled : ∀ c ∈ s.matched, (c, statusSuccess) ∈ s.returned ∨
    ∃ t w, (s.threads t).parked = some w ∧ w.call = c
  fresh : s.critSecReady = false → s.waiters .critSec = []

theorem KeyedInv.paired {s : KeyedState} (h : KeyedInv s) : Paired s where
  once := h.once
  pairs := h.pairs
  success := h.success
  settled c hc := by
    rcases h.settled c hc with hreturned | ⟨t, w, hw, rfl⟩
    · exact .inl hreturned
    · exact .inr ⟨t, w, hw, rfl, (h.met hw).mp hc⟩
  live e t ht := by
    obtain ⟨w, hw, he⟩ := h.listed e t ht
    exact ⟨w, hw, he, h.unreturned hw⟩

theorem keyedStart_inv (threads : Nat → KeyedThread) : KeyedInv (keyedStart threads) := by
  constructor <;> simp [keyedStart, KeyedState.matched]

/-! ## Steps -/

section
variable {s s' : KeyedState} {t u : Nat} {w : KeyedWaiter} {call : KeyedCall} {status : NtStatus}

structure SameParked (s s' : KeyedState) : Prop where
  back : ∀ {t w'}, (s'.threads t).parked = some w' → ∃ w, (s.threads t).parked = some w ∧
    w.call = w'.call ∧ (w'.waitStatus = none → w.waitStatus = none) ∧
    (w'.waitStatus = some statusSuccess → w.waitStatus = some statusSuccess)
  forth : ∀ {t w}, (s.threads t).parked = some w → ∃ w', (s'.threads t).parked = some w' ∧
    w'.call = w.call

theorem SameParked.of_eq (h : ∀ t, (s'.threads t).parked = (s.threads t).parked) :
    SameParked s s' where
  back hw := ⟨_, (h _).symm.trans hw, rfl, id, id⟩
  forth hw := ⟨_, (h _).trans hw, rfl⟩

theorem KeyedInv.congr (h : KeyedInv s) (hparked : SameParked s s')
    (hwaiters : s'.waiters = s.waiters) (hcalls : s.calls ≤ s'.calls) (hwakes : s'.wakes = s.wakes)
    (hreturned : s'.returned = s.returned)
    (hfresh : s'.critSecReady = false → s.critSecReady = false) : KeyedInv s' := by
  have hmatched : s'.matched = s.matched := by rw [KeyedState.matched, hwakes, KeyedState.matched]
  constructor
  case numbered =>
    intro t w hw
    obtain ⟨w0, hw0, hcall, -⟩ := hparked.back hw
    exact hcall ▸ (h.numbered hw0).trans_le hcalls
  case counted => exact fun c hc => (h.counted c (hmatched ▸ hc)).trans_le hcalls
  case past => exact fun r hr => (h.past r (hreturned ▸ hr)).trans_le hcalls
  case apart =>
    intro t u w w' hw hw' heq
    obtain ⟨w0, hw0, hcall, -⟩ := hparked.back hw
    obtain ⟨w1, hw1, hcall', -⟩ := hparked.back hw'
    exact h.apart hw0 hw1 ((hcall.trans heq).trans hcall'.symm)
  case unreturned =>
    intro t w hw r hr
    obtain ⟨w0, hw0, hcall, -⟩ := hparked.back hw
    exact hcall ▸ h.unreturned hw0 r (hreturned ▸ hr)
  case nodup => exact hwaiters ▸ h.nodup
  case listed =>
    intro e t ht
    obtain ⟨w, hw, he⟩ := h.listed e t (hwaiters ▸ ht)
    obtain ⟨w', hw', hcall⟩ := hparked.forth hw
    exact ⟨w', hw', hcall ▸ he⟩
  case waiting =>
    intro t w hw hnone
    obtain ⟨w0, hw0, hcall, hback, -⟩ := hparked.back hw
    rw [hwaiters, ← hcall]
    exact h.waiting hw0 (hback hnone)
  case woken =>
    intro t w hw hsome
    obtain ⟨w0, hw0, hcall, -, hback⟩ := hparked.back hw
    rw [hwaiters, ← hcall]
    exact h.woken hw0 (hback hsome)
  case met =>
    intro t w hw
    obtain ⟨w0, hw0, hcall, -⟩ := hparked.back hw
    rw [hmatched, hwaiters, ← hcall]
    exact h.met hw0
  case once => exact hmatched ▸ h.once
  case pairs => exact hwakes ▸ h.pairs
  case success => rw [hreturned, hmatched]; exact h.success
  case settled =>
    intro c hc
    rw [hreturned]
    rcases h.settled c (hmatched ▸ hc) with hr | ⟨t, w, hw, hcall⟩
    · exact .inl hr
    · obtain ⟨w', hw', hcall'⟩ := hparked.forth hw
      exact .inr ⟨t, w', hw', hcall'.trans hcall⟩
  case fresh => exact fun hr => hwaiters ▸ h.fresh (hfresh hr)

theorem KeyedInv.unwait {may : KeyedWaiter → Bool} (h : KeyedInv s)
    (hstatus : status ≠ statusSuccess) : KeyedInv (unwait t status may s) := by
  unfold Ob.unwait
  split
  · exact h
  · rename_i w hw
    split
    · rename_i hwait
      refine h.congr ⟨?_, ?_⟩ rfl le_rfl rfl rfl id
      · intro u w' hw'
        rw [KeyedState.parked_setParked] at hw'
        split at hw'
        · rename_i hu
          cases hw'
          refine ⟨w, hu ▸ hw, rfl, nofun, fun heq => ?_⟩
          exact absurd (some.inj heq) hstatus
        · exact ⟨w', hw', rfl, id, id⟩
      · intro u w' hw'
        rw [KeyedState.parked_setParked]
        split
        · rename_i hu
          rw [hu, hw] at hw'
          cases hw'
          exact ⟨_, rfl, rfl⟩
        · exact ⟨w', hw', rfl⟩
    · exact h

theorem KeyedInv.refused (h : KeyedInv s) (hnew : call.number = s.calls)
    (hstatus : status ≠ statusSuccess) :
    KeyedInv ({ s with calls := s.calls + 1 }.returns call status) := by
  have hmatched : call ∉ s.matched := fun hc => by have := h.counted call hc; omega
  exact
    { h with
      numbered := fun hw => Nat.lt_succ_of_lt (h.numbered hw)
      counted := fun c hc => Nat.lt_succ_of_lt (h.counted c hc)
      past := by
        intro r hr
        rcases mem_cons.mp hr with rfl | hr
        · exact Nat.lt_succ_of_le hnew.le
        · exact Nat.lt_succ_of_lt (h.past r hr)
      unreturned := by
        intro t w hw r hr
        rcases mem_cons.mp hr with rfl | hr
        · rintro rfl
          have := h.numbered hw
          omega
        · exact h.unreturned hw r hr
      success := by
        intro r hr
        rcases mem_cons.mp hr with rfl | hr
        · exact iff_of_false hstatus hmatched
        · exact h.success r hr
      settled := fun c hc => (h.settled c hc).imp (mem_cons_of_mem _) id }

theorem parked_beginWait (timeout : Option Int64) (w : KeyedWaiter) (th : KeyedThread)
    (hwake : w.wake = false) (hstatus : w.waitStatus ≠ some statusSuccess) :
    ∃ w', (beginWait timeout w th).parked = some w' ∧ w'.call = w.call ∧
      w'.waitStatus ≠ some statusSuccess := by
  have hne {status : NtStatus} (h : status ≠ statusSuccess) : some status ≠ some statusSuccess :=
    fun heq => h (some.inj heq)
  unfold beginWait
  split
  · exact ⟨_, rfl, rfl, hne (by decide)⟩
  · split
    · rename_i hset
      exact absurd (hset.symm.trans hwake) nofun
    · split
      · split
        · exact ⟨_, rfl, rfl, hne (by decide)⟩
        · exact ⟨_, rfl, rfl, hne (by decide)⟩
      · split
        · exact ⟨_, rfl, rfl, hne (by decide)⟩
        · exact ⟨_, rfl, rfl, hstatus⟩

theorem KeyedInv.park {args : KeyedArguments} (h : KeyedInv s)
    (hcall : call.number = s.calls) (hidle : (s.threads t).parked = none)
    (hready : call.event = .critSec → s.critSecReady = true) :
    KeyedInv (park t args call { s with calls := s.calls + 1 }) := by
  -- the new waiter has this call, and its wait has not ended in success
  obtain ⟨w, hw, hwcall, hwstatus⟩ : ∃ w : KeyedWaiter,
      ((Ob.park t args call { s with calls := s.calls + 1 }).threads t).parked = some w ∧
        w.call = call ∧ w.waitStatus ≠ some statusSuccess := by
    obtain ⟨w, hw, hcall', hstatus⟩ := parked_beginWait args.timeout
      { call, alertable := args.alertable, timed := args.timeout.isSome } (s.threads t) rfl nofun
    exact ⟨w, by simpa [Ob.park] using hw, hcall', hstatus⟩
  have hother : ∀ u, u ≠ t →
      ((Ob.park t args call { s with calls := s.calls + 1 }).threads u).parked =
        (s.threads u).parked := by
    intro u hu
    simp [Ob.park, hu]
  have hwaiters : ∀ e, (Ob.park t args call { s with calls := s.calls + 1 }).waiters e =
      if e = call.event then s.waiters e ++ [t] else s.waiters e := by
    intro e
    simp only [Ob.park, KeyedState.waiters_setThread, KeyedState.waiters_setWaiters]
    split
    · rename_i he
      rw [he]
    · rfl
  have hnew : t ∉ s.waiters call.event := by
    intro ht
    obtain ⟨w', hw', -⟩ := h.listed _ _ ht
    rw [hidle] at hw'
    cases hw'
  have hmatched : call ∉ s.matched := fun hc => by have := h.counted call hc; omega
  -- what a parked waiter is: the new one, or an old one of another thread
  have hcases : ∀ {u w'}, ((Ob.park t args call { s with calls := s.calls + 1 }).threads u).parked =
      some w' → (u = t ∧ w' = w) ∨ (u ≠ t ∧ (s.threads u).parked = some w') := by
    intro u w' hw'
    by_cases hu : u = t
    · rw [hu, hw] at hw'
      exact .inl ⟨hu, (some.inj hw').symm⟩
    · exact .inr ⟨hu, hother u hu ▸ hw'⟩
  have hmem : ∀ {u e}, u ≠ t →
      (u ∈ (Ob.park t args call { s with calls := s.calls + 1 }).waiters e ↔ u ∈ s.waiters e) := by
    intro u e hu
    rw [hwaiters]
    split
    · simp [hu]
    · rfl
  have hself : t ∈ (Ob.park t args call { s with calls := s.calls + 1 }).waiters call.event := by
    rw [hwaiters, if_pos rfl]
    exact mem_append_right _ (mem_singleton_self t)
  constructor
  case numbered =>
    intro u w' hw'
    rcases hcases hw' with ⟨-, rfl⟩ | ⟨-, hold⟩
    · rw [hwcall, hcall]
      exact Nat.lt_succ_self _
    · exact Nat.lt_succ_of_lt (h.numbered hold)
  case counted => exact fun c hc => Nat.lt_succ_of_lt (h.counted c hc)
  case past => exact fun r hr => Nat.lt_succ_of_lt (h.past r hr)
  case apart =>
    intro u v w' w'' hw' hw'' heq
    rcases hcases hw' with ⟨rfl, rfl⟩ | ⟨hu, hold⟩
    · rcases hcases hw'' with ⟨rfl, -⟩ | ⟨-, hold'⟩
      · rfl
      · have := h.numbered hold'
        rw [← heq, hwcall] at this
        omega
    · rcases hcases hw'' with ⟨rfl, rfl⟩ | ⟨-, hold'⟩
      · have := h.numbered hold
        rw [heq, hwcall] at this
        omega
      · exact h.apart hold hold' heq
  case unreturned =>
    intro u w' hw' r hr
    rcases hcases hw' with ⟨-, rfl⟩ | ⟨-, hold⟩
    · intro heq
      have := h.past r hr
      rw [heq, hwcall] at this
      omega
    · exact h.unreturned hold r hr
  case nodup =>
    intro e
    rw [hwaiters]
    split
    · rename_i he
      have hdisjoint : t ∉ s.waiters e := he ▸ hnew
      exact nodup_append.mpr ⟨h.nodup e, nodup_singleton t, by
        intro a ha b hb
        rw [mem_singleton.mp hb]
        rintro rfl
        exact hdisjoint ha⟩
    · exact h.nodup e
  case listed =>
    intro e u hu
    by_cases hut : u = t
    · subst hut
      refine ⟨w, hw, ?_⟩
      rw [hwcall]
      rw [hwaiters] at hu
      by_contra he
      rw [if_neg (Ne.symm he)] at hu
      obtain ⟨w', hw', -⟩ := h.listed _ _ hu
      rw [hidle] at hw'
      cases hw'
    · obtain ⟨w', hw', he⟩ := h.listed e u ((hmem hut).mp hu)
      exact ⟨w', (hother u hut).trans hw', he⟩
  case waiting =>
    intro u w' hw' hnone
    rcases hcases hw' with ⟨rfl, rfl⟩ | ⟨hu, hold⟩
    · rw [hwcall]
      exact hself
    · exact (hmem hu).mpr (h.waiting hold hnone)
  case woken =>
    intro u w' hw' hsome
    rcases hcases hw' with ⟨rfl, rfl⟩ | ⟨hu, hold⟩
    · exact absurd hsome hwstatus
    · exact fun hmem' => h.woken hold hsome ((hmem hu).mp hmem')
  case met =>
    intro u w' hw'
    rcases hcases hw' with ⟨rfl, rfl⟩ | ⟨hu, hold⟩
    · rw [hwcall]
      exact iff_of_false hmatched (fun hnot => hnot hself)
    · rw [hmem hu]
      exact h.met hold
  case once => exact h.once
  case pairs => exact h.pairs
  case success => exact h.success
  case settled =>
    intro c hc
    rcases h.settled c hc with hr | ⟨u, w', hw', hcall'⟩
    · exact .inl hr
    · refine .inr ⟨u, w', (hother u ?_).trans hw', hcall'⟩
      rintro rfl
      rw [hidle] at hw'
      cases hw'
  case fresh =>
    intro hr
    rw [hwaiters, if_neg]
    · exact h.fresh hr
    · intro he
      have htrue := hready he.symm
      exact absurd (htrue.symm.trans hr) (by decide)

theorem parked_wakeOther {v : Nat} :
    ((wakeOther u w call s).threads v).parked =
      if v = u then some w.set else (s.threads v).parked :=
  KeyedState.parked_setParked ..

theorem waiters_wakeOther {e : KeyedEvent} :
    (wakeOther u w call s).waiters e =
      if e = call.event then (s.waiters call.event).erase u else s.waiters e :=
  KeyedState.waiters_setWaiters ..

theorem KeyedWaiter.call_set : w.set.call = w.call := by
  unfold KeyedWaiter.set
  split <;> rfl

theorem KeyedWaiter.waitStatus_set : w.set.waitStatus ≠ none := by
  unfold KeyedWaiter.set
  split
  · exact nofun
  · rename_i hstatus
    exact fun hnone => by cases hstatus.symm.trans hnone

theorem KeyedInv.wakeOther (h : KeyedInv s) (hcall : call.number = s.calls)
    (hu : u ∈ s.waiters call.event) (hw : (s.threads u).parked = some w)
    (hopposite : opposite s call u = true) :
    KeyedInv (wakeOther u w call { s with calls := s.calls + 1 }) := by
  have hfreshCall : call ∉ s.matched := fun hc => by have := h.counted call hc; omega
  have hevent : w.call.event = call.event := by
    obtain ⟨w', hw', he⟩ := h.listed _ _ hu
    rw [hw] at hw'
    cases hw'
    exact he
  have hold : w.call ∉ s.matched := fun hm => (h.met hw).mp hm (hevent ▸ hu)
  have hmeets : Meets w.call call := by
    unfold opposite at hopposite
    rw [hw] at hopposite
    simp only [Bool.and_eq_true, beq_iff_eq, bne_iff_ne] at hopposite
    exact ⟨hevent, hopposite.1.1, hopposite.1.2, hopposite.2⟩
  have hne : w.call ≠ call := fun heq => hmeets.release (congrArg KeyedCall.release heq)
  have hmatched : (Ob.wakeOther u w call { s with calls := s.calls + 1 }).matched =
      w.call :: call :: s.matched := rfl
  -- the waiters are those of before, but for the one that was woken
  have hback : ∀ {v w'}, ((Ob.wakeOther u w call { s with calls := s.calls + 1 }).threads v).parked =
      some w' → (v = u ∧ w' = w.set) ∨ (v ≠ u ∧ (s.threads v).parked = some w') := by
    intro v w' hw'
    rw [parked_wakeOther] at hw'
    split at hw'
    · rename_i hv
      exact .inl ⟨hv, (some.inj hw').symm⟩
    · rename_i hv
      exact .inr ⟨hv, hw'⟩
  have hforth : ∀ {v w'}, (s.threads v).parked = some w' →
      ∃ w'', ((Ob.wakeOther u w call { s with calls := s.calls + 1 }).threads v).parked = some w'' ∧
        w''.call = w'.call := by
    intro v w' hw'
    rw [parked_wakeOther]
    split
    · rename_i hv
      rw [hv, hw] at hw'
      cases hw'
      exact ⟨_, rfl, KeyedWaiter.call_set⟩
    · exact ⟨w', hw', rfl⟩
  have hmem : ∀ {v e}, v ≠ u →
      (v ∈ (Ob.wakeOther u w call { s with calls := s.calls + 1 }).waiters e ↔
        v ∈ s.waiters e) := by
    intro v e hv
    rw [waiters_wakeOther]
    split
    · rename_i he
      rw [he]
      exact mem_erase_of_ne hv
    · rfl
  have hgone : u ∉ (Ob.wakeOther u w call { s with calls := s.calls + 1 }).waiters call.event := by
    rw [waiters_wakeOther, if_pos rfl]
    exact (h.nodup _).not_mem_erase
  constructor
  case numbered =>
    intro v w' hw'
    rcases hback hw' with ⟨-, rfl⟩ | ⟨-, hw'⟩
    · rw [KeyedWaiter.call_set]
      exact Nat.lt_succ_of_lt (h.numbered hw)
    · exact Nat.lt_succ_of_lt (h.numbered hw')
  case counted =>
    intro c hc
    rw [hmatched] at hc
    rcases mem_cons.mp hc with rfl | hc
    · exact Nat.lt_succ_of_lt (h.numbered hw)
    · rcases mem_cons.mp hc with rfl | hc
      · exact Nat.lt_succ_of_le hcall.le
      · exact Nat.lt_succ_of_lt (h.counted c hc)
  case past =>
    intro r hr
    rcases mem_cons.mp hr with rfl | hr
    · exact Nat.lt_succ_of_le hcall.le
    · exact Nat.lt_succ_of_lt (h.past r hr)
  case apart =>
    intro v v' w1 w2 hw1 hw2 heq
    rcases hback hw1 with ⟨rfl, rfl⟩ | ⟨-, hold1⟩
    · rcases hback hw2 with ⟨rfl, -⟩ | ⟨-, hold2⟩
      · rfl
      · exact h.apart hw hold2 (KeyedWaiter.call_set.symm.trans heq)
    · rcases hback hw2 with ⟨rfl, rfl⟩ | ⟨-, hold2⟩
      · exact h.apart hold1 hw (heq.trans KeyedWaiter.call_set)
      · exact h.apart hold1 hold2 heq
  case unreturned =>
    intro v w' hw' r hr
    -- the call that returns was never parked
    have hnew : ∀ {v w0}, (s.threads v).parked = some w0 → call ≠ w0.call := by
      intro v w0 hw0 heq
      have := h.numbered hw0
      rw [← heq] at this
      omega
    rcases mem_cons.mp hr with rfl | hr
    · rcases hback hw' with ⟨-, rfl⟩ | ⟨-, hw'⟩
      · rw [KeyedWaiter.call_set]
        exact hne.symm
      · exact hnew hw'
    · rcases hback hw' with ⟨-, rfl⟩ | ⟨-, hw'⟩
      · rw [KeyedWaiter.call_set]
        exact h.unreturned hw r hr
      · exact h.unreturned hw' r hr
  case nodup =>
    intro e
    rw [waiters_wakeOther]
    split
    · exact (h.nodup _).erase u
    · exact h.nodup e
  case listed =>
    intro e v hv
    have hv' : v ∈ s.waiters e := by
      rw [waiters_wakeOther] at hv
      split at hv
      · rename_i he
        rw [he]
        exact mem_of_mem_erase hv
      · exact hv
    obtain ⟨w', hw', he⟩ := h.listed e v hv'
    obtain ⟨w'', hw'', hcall''⟩ := hforth hw'
    exact ⟨w'', hw'', (congrArg KeyedCall.event hcall'').trans he⟩
  case waiting =>
    intro v w' hw' hnone
    rcases hback hw' with ⟨-, rfl⟩ | ⟨hv, hw'⟩
    · exact absurd hnone KeyedWaiter.waitStatus_set
    · exact (hmem hv).mpr (h.waiting hw' hnone)
  case woken =>
    intro v w' hw' hsome
    rcases hback hw' with ⟨rfl, rfl⟩ | ⟨hv, hw'⟩
    · rw [KeyedWaiter.call_set, hevent]
      exact hgone
    · exact fun hin => h.woken hw' hsome ((hmem hv).mp hin)
  case met =>
    intro v w' hw'
    rw [hmatched]
    rcases hback hw' with ⟨rfl, rfl⟩ | ⟨hv, hw'⟩
    · rw [KeyedWaiter.call_set, hevent]
      exact iff_of_true (mem_cons_self ..) hgone
    · have hw_ne : w'.call ≠ w.call := fun heq => hv (h.apart hw' hw heq)
      have hcall_ne : w'.call ≠ call := by
        intro heq
        have := h.numbered hw'
        rw [heq] at this
        omega
      rw [hmem hv, mem_cons, mem_cons, ← h.met hw']
      simp [hw_ne, hcall_ne]
  case once =>
    rw [hmatched]
    refine nodup_cons.mpr ⟨?_, nodup_cons.mpr ⟨hfreshCall, h.once⟩⟩
    simp [hne, hold]
  case pairs =>
    intro p hp
    rcases mem_cons.mp hp with rfl | hp
    · exact hmeets
    · exact h.pairs p hp
  case success =>
    intro r hr
    rw [hmatched]
    rcases mem_cons.mp hr with rfl | hr
    · exact iff_of_true rfl (mem_cons_of_mem _ (mem_cons_self ..))
    · have hw_ne : r.1 ≠ w.call := h.unreturned hw r hr
      have hcall_ne : r.1 ≠ call := by
        intro heq
        have := h.past r hr
        rw [heq] at this
        omega
      rw [h.success r hr, mem_cons, mem_cons]
      simp [hw_ne, hcall_ne]
  case settled =>
    intro c hc
    rw [hmatched] at hc
    rcases mem_cons.mp hc with rfl | hc
    · exact .inr ⟨u, w.set, by rw [parked_wakeOther, if_pos rfl], KeyedWaiter.call_set⟩
    · rcases mem_cons.mp hc with rfl | hc
      · exact .inl (mem_cons_self ..)
      · rcases h.settled c hc with hr | ⟨v, w', hw', hcall'⟩
        · exact .inl (mem_cons_of_mem _ hr)
        · obtain ⟨w'', hw'', hcall''⟩ := hforth hw'
          exact .inr ⟨v, w'', hw'', hcall''.trans hcall'⟩
  case fresh =>
    intro hr
    rw [waiters_wakeOther]
    split
    · rename_i he
      rw [← he, h.fresh hr] at hu
      cases hu
    · exact h.fresh hr

theorem KeyedInv.leave (h : KeyedInv s) (hw : (s.threads t).parked = some w)
    (hstatus : status = statusSuccess ↔ t ∉ s.waiters w.call.event) :
    KeyedInv (((s.setParked t none).setWaiters w.call.event
      ((s.waiters w.call.event).erase t)).returns w.call status) := by
  have hback : ∀ {v w'}, ((((s.setParked t none).setWaiters w.call.event
      ((s.waiters w.call.event).erase t)).returns w.call status).threads v).parked = some w' →
        v ≠ t ∧ (s.threads v).parked = some w' := by
    intro v w' hw'
    have hw' : ((s.setParked t none).threads v).parked = some w' := hw'
    rw [KeyedState.parked_setParked] at hw'
    split at hw'
    · cases hw'
    · rename_i hv
      exact ⟨hv, hw'⟩
  have hforth : ∀ {v w'}, v ≠ t → (s.threads v).parked = some w' →
      ((((s.setParked t none).setWaiters w.call.event
        ((s.waiters w.call.event).erase t)).returns w.call status).threads v).parked = some w' := by
    intro v w' hv hw'
    have hsame := KeyedState.parked_setParked s t v none
    rw [if_neg hv] at hsame
    exact hsame.trans hw'
  have hwaiters : ∀ e, (((s.setParked t none).setWaiters w.call.event
      ((s.waiters w.call.event).erase t)).returns w.call status).waiters e =
        if e = w.call.event then (s.waiters w.call.event).erase t else s.waiters e :=
    fun e => KeyedState.waiters_setWaiters ..
  have hmem : ∀ {v e}, v ≠ t → (v ∈ (((s.setParked t none).setWaiters w.call.event
      ((s.waiters w.call.event).erase t)).returns w.call status).waiters e ↔
        v ∈ s.waiters e) := by
    intro v e hv
    rw [hwaiters]
    split
    · rename_i he
      rw [he]
      exact mem_erase_of_ne hv
    · rfl
  constructor
  case numbered => exact fun hw' => h.numbered (hback hw').2
  case counted => exact h.counted
  case past =>
    intro r hr
    rcases mem_cons.mp hr with rfl | hr
    · exact h.numbered hw
    · exact h.past r hr
  case apart => exact fun hw1 hw2 heq => h.apart (hback hw1).2 (hback hw2).2 heq
  case unreturned =>
    intro v w' hw' r hr
    obtain ⟨hv, hw'⟩ := hback hw'
    rcases mem_cons.mp hr with rfl | hr
    · exact fun heq => hv (h.apart hw' hw heq.symm)
    · exact h.unreturned hw' r hr
  case nodup =>
    intro e
    rw [hwaiters]
    split
    · exact (h.nodup _).erase t
    · exact h.nodup e
  case listed =>
    intro e v hv
    have hv' : v ≠ t ∧ v ∈ s.waiters e := by
      rw [hwaiters] at hv
      split at hv
      · rename_i he
        rw [he]
        exact (h.nodup _).mem_erase_iff.mp hv
      · rename_i he
        refine ⟨?_, hv⟩
        rintro rfl
        obtain ⟨w', hw', he'⟩ := h.listed _ _ hv
        rw [hw] at hw'
        cases hw'
        exact he he'.symm
    obtain ⟨w', hw', he⟩ := h.listed e v hv'.2
    exact ⟨w', hforth hv'.1 hw', he⟩
  case waiting =>
    intro v w' hw' hnone
    obtain ⟨hv, hw'⟩ := hback hw'
    exact (hmem hv).mpr (h.waiting hw' hnone)
  case woken =>
    intro v w' hw' hsome
    obtain ⟨hv, hw'⟩ := hback hw'
    exact fun hin => h.woken hw' hsome ((hmem hv).mp hin)
  case met =>
    intro v w' hw'
    obtain ⟨hv, hw'⟩ := hback hw'
    rw [hmem hv]
    exact h.met hw'
  case once => exact h.once
  case pairs => exact h.pairs
  case success =>
    intro r hr
    rcases mem_cons.mp hr with rfl | hr
    · exact hstatus.trans (h.met hw).symm
    · exact h.success r hr
  case settled =>
    intro c hc
    rcases h.settled c hc with hr | ⟨v, w', hw', rfl⟩
    · exact .inl (mem_cons_of_mem _ hr)
    · by_cases hv : v = t
      · rw [hv, hw] at hw'
        cases hw'
        have := hstatus.mpr ((h.met hw).mp hc)
        exact .inl (mem_cons.mpr (.inl (by rw [this])))
      · exact .inr ⟨v, w', hforth hv hw', rfl⟩
  case fresh =>
    intro hr
    rw [hwaiters]
    split
    · rename_i he
      rw [← he, h.fresh hr]
      rfl
    · exact h.fresh hr

theorem setWaiters_erase {e : KeyedEvent} (ht : t ∉ s.waiters e) :
    s.setWaiters e ((s.waiters e).erase t) = s := by
  rw [erase_of_not_mem ht, KeyedState.setWaiters, Function.update_eq_self]

theorem KeyedInv.finish (h : KeyedInv s) : KeyedInv (finishOperation t s) := by
  unfold finishOperation
  split
  · exact h
  · rename_i w hw
    split
    · exact h
    · rename_i status hstatus
      have hmet : t ∉ s.waiters w.call.event →
          KeyedInv ((s.setParked t none).returns w.call statusSuccess) := by
        intro ht
        have hleave := h.leave hw (iff_of_true (rfl : statusSuccess = statusSuccess) ht)
        have herase := setWaiters_erase (s := s.setParked t none) (e := w.call.event) ht
        rw [KeyedState.waiters_setParked] at herase
        rwa [herase] at hleave
      dsimp only
      split
      · rename_i hsuccess
        exact hmet (h.woken hw (hsuccess ▸ hstatus))
      · rename_i hsuccess
        split
        · rename_i ht
          exact h.leave hw (iff_of_false hsuccess (fun hnot => hnot ht))
        · rename_i ht
          exact hmet ht

theorem readyCritSec_inv (args : KeyedArguments) (h : KeyedInv s) :
    KeyedInv (readyCritSec args s) := by
  unfold readyCritSec
  split
  · rename_i hready
    rw [Bool.and_eq_true, Bool.not_eq_true'] at hready
    have hempty : s.waiters .critSec = [] := h.fresh hready.2
    have hsame : s.setWaiters .critSec [] = s := by
      rw [KeyedState.setWaiters, ← hempty, Function.update_eq_self]
    rw [hsame]
    exact h.congr (.of_eq fun _ => rfl) rfl le_rfl rfl rfl nofun
  · exact h

variable {args : KeyedArguments}

theorem readyCritSec_ready (hevent : args.event = .critSec) :
    (readyCritSec args s).critSecReady = true := by
  have hnone : args.handle.isNone = true := by
    unfold KeyedArguments.event at hevent
    split at hevent
    · rename_i hhandle
      rw [hhandle]
      rfl
    · cases hevent
  unfold readyCritSec
  split
  · rfl
  · rename_i hready
    simpa [hnone] using hready

/-- The first use readies the instance before or after the call is counted. -/
theorem readyCritSec_calls :
    readyCritSec args { s with calls := s.calls + 1 } =
      { readyCritSec args s with calls := (readyCritSec args s).calls + 1 } := by
  unfold readyCritSec
  split <;> rfl

theorem readyCritSec_threads (args : KeyedArguments) :
    (readyCritSec args s).threads = s.threads ∧ (readyCritSec args s).calls = s.calls := by
  unfold readyCritSec
  split
  · exact ⟨rfl, rfl⟩
  · exact ⟨rfl, rfl⟩

theorem KeyedInv.operation (h : KeyedInv s)
    (hidle : (s.threads t).parked = none) : KeyedInv (obpKeyedEventOperation t args s) := by
  unfold obpKeyedEventOperation
  dsimp only
  split
  · rename_i status hrefusal
    refine h.refused rfl ?_
    rintro rfl
    revert hrefusal
    unfold KeyedArguments.refusal
    split
    · decide
    · split
      · rename_i hfailure
        intro heq
        rw [some.inj heq] at hfailure
        exact absurd hfailure (by decide)
      · split
        · simp
        · split
          · rename_i hfailure
            intro heq
            rw [some.inj heq] at hfailure
            exact absurd hfailure (by decide)
          · simp
  · rw [readyCritSec_calls]
    have hready := readyCritSec_inv args h
    obtain ⟨hthreads, hcalls⟩ := @readyCritSec_threads s args
    split
    · refine hready.park hcalls.symm (hthreads ▸ hidle) (fun hevent => readyCritSec_ready hevent)
    · rename_i u hu
      have hmem := mem_of_find?_eq_some hu
      have hopposite := find?_some hu
      split
      · rename_i hnone
        obtain ⟨w, hw, -⟩ := hready.listed _ _ hmem
        exact absurd (hw.symm.trans hnone) (by simp)
      · rename_i w hw
        exact hready.wakeOther hcalls.symm hmem hw hopposite

theorem KeyedInv.step (h : KeyedInv s) (op : KeyedOp) : KeyedInv (op.step s) := by
  cases op with
  | call t args =>
    simp only [KeyedOp.step]
    split
    · rename_i hidle
      exact h.operation (isNone_iff_eq_none.mp hidle)
    · exact h
  | finish t => exact h.finish
  | expire t => exact h.unwait (by decide)
  | alert t => exact h.unwait (by decide)
  | queueApc t => exact h.unwait (by decide)
  | terminate t => exact h.unwait (by decide)
  | flags t terminating rundownWait userApcPending alerted =>
    refine h.congr (.of_eq fun u => ?_) rfl le_rfl rfl rfl id
    simp only [KeyedOp.step, KeyedState.threads_setThread]
    split
    · rename_i hu
      rw [hu]
    · rfl

theorem KeyedInv.run (h : KeyedInv s) (ops : List KeyedOp) : KeyedInv (runKeyed ops s) := by
  induction ops generalizing s with
  | nil => exact h
  | cons op ops ih => exact ih (h.step op)

end

/-- However calls of any threads, timeouts, alerts and terminations interleave: the calls that return
success are paired, a wait with a release on the same event, process and key; the others are in no
pair; and no list holds an entry of a call that has returned. -/
theorem keyedEvents_paired (threads : Nat → KeyedThread) (ops : List KeyedOp) :
    Paired (runKeyed ops (keyedStart threads)) :=
  ((keyedStart_inv threads).run ops).paired

/-! ## Rendezvous that are not missed -/

/-- No two of the queued calls could meet. -/
def Unmet (s : KeyedState) : Prop :=
  ∀ e, ∀ t ∈ s.waiters e, ∀ u ∈ s.waiters e, ∀ w w', (s.threads t).parked = some w →
    (s.threads u).parked = some w' → ¬ Meets w.call w'.call

section
variable {s s' : KeyedState} {t : Nat} {call : KeyedCall} {args : KeyedArguments}

theorem Unmet.mono (h : Unmet s) (hwaiters : ∀ e, s'.waiters e ⊆ s.waiters e)
    (hback : ∀ t w', (s'.threads t).parked = some w' →
      ∃ w, (s.threads t).parked = some w ∧ w.call = w'.call) : Unmet s' := by
  intro e t ht u hu w w' hw hw'
  obtain ⟨v, hv, hcall⟩ := hback t w hw
  obtain ⟨v', hv', hcall'⟩ := hback u w' hw'
  rw [← hcall, ← hcall']
  exact h e t (hwaiters e ht) u (hwaiters e hu) v v' hv hv'

theorem Meets.symm {a b : KeyedCall} (h : Meets a b) : Meets b a :=
  ⟨h.event.symm, h.process.symm, h.key.symm, h.release.symm⟩

theorem opposite_of_meets {u : Nat} {w : KeyedWaiter} (hw : (s.threads u).parked = some w)
    (h : Meets w.call call) : opposite s call u = true := by
  simp [opposite, hw, h.process, h.key, h.release]

theorem Unmet.park (h : Unmet s) (hinv : KeyedInv s) (hidle : (s.threads t).parked = none)
    (hnone : (s.waiters call.event).find? (opposite s call) = none) :
    Unmet (park t args call { s with calls := s.calls + 1 }) := by
  obtain ⟨v, hv, hcall, -⟩ := parked_beginWait args.timeout
    { call, alertable := args.alertable, timed := args.timeout.isSome } (s.threads t) rfl nofun
  change v.call = call at hcall
  have hold : ∀ {e u}, u ∈ s.waiters e → u ≠ t := by
    rintro e u hu rfl
    obtain ⟨w, hw, -⟩ := hinv.listed e u hu
    cases hidle.symm.trans hw
  have hapart : ∀ {u w}, u ∈ s.waiters call.event → (s.threads u).parked = some w →
      ¬ Meets w.call call := fun hu hw hmeets =>
    absurd (opposite_of_meets hw hmeets) (by simpa using find?_eq_none.mp hnone _ hu)
  intro e u hu u' hu' w w' hw hw' hmeets
  simp only [Ob.park, KeyedState.waiters_setThread, KeyedState.waiters_setWaiters,
    KeyedState.threads_setThread, KeyedState.threads_setWaiters] at hu hu' hw hw'
  -- an entry is an old one, or the new one at the tail of its list
  have hmem : ∀ {u}, u ∈ (if e = call.event then s.waiters call.event ++ [t] else s.waiters e) →
      u ∈ s.waiters e ∨ (u = t ∧ e = call.event) := by
    intro u hu
    split at hu
    case isTrue he => simpa [he] using hu
    case isFalse => exact .inl hu
  rcases hmem hu with hm | ⟨rfl, rfl⟩ <;> rcases hmem hu' with hm' | ⟨rfl, he⟩
  · rw [if_neg (hold hm)] at hw
    rw [if_neg (hold hm')] at hw'
    exact h e u hm u' hm' w w' hw hw' hmeets
  · rw [if_neg (hold hm)] at hw
    rw [if_pos rfl, hv] at hw'
    cases hw'
    exact hapart (he ▸ hm) hw (hcall ▸ hmeets)
  · rw [if_pos rfl, hv] at hw
    rw [if_neg (hold hm')] at hw'
    cases hw
    exact hapart hm' hw' (hcall ▸ hmeets.symm)
  · rw [if_pos rfl] at hw hw'
    cases hw.symm.trans hw'
    exact hmeets.release rfl

theorem Unmet.operation (h : Unmet s) (hinv : KeyedInv s) (hidle : (s.threads t).parked = none) :
    Unmet (obpKeyedEventOperation t args s) := by
  unfold obpKeyedEventOperation
  dsimp only
  split
  · exact h.mono (fun _ _ h => h) fun _ w hw => ⟨w, hw, rfl⟩
  · rw [readyCritSec_calls]
    have hthreads := (readyCritSec_threads (s := s) args).1
    have hready : Unmet (readyCritSec args s) := by
      refine h.mono (fun e => ?_) fun _ w hw => ⟨w, hthreads ▸ hw, rfl⟩
      unfold readyCritSec
      split
      · rw [KeyedState.waiters_setWaiters]
        split <;> simp
      · exact fun _ h => h
    split
    · rename_i hnone
      exact hready.park (readyCritSec_inv args hinv) (hthreads ▸ hidle) hnone
    · split
      · exact hready.mono (fun _ _ h => h) fun _ w hw => ⟨w, hw, rfl⟩
      · rename_i u _ w hw
        refine hready.mono (fun e => ?_) fun v w' hw' => ?_
        · rw [waiters_wakeOther]
          split
          case isTrue he => exact he ▸ erase_subset
          case isFalse => exact fun _ h => h
        · rw [parked_wakeOther] at hw'
          split at hw'
          case isTrue hv =>
            cases hw'
            exact ⟨w, hv ▸ hw, KeyedWaiter.call_set.symm⟩
          case isFalse => exact ⟨w', hw', rfl⟩

theorem Unmet.unpark (h : Unmet s) (hwaiters : ∀ e, s'.waiters e ⊆ s.waiters e)
    (hparked : ∀ u, (s'.threads u).parked = if u = t then none else (s.threads u).parked) :
    Unmet s' := by
  refine h.mono hwaiters fun u w hw => ?_
  rw [hparked] at hw
  split at hw
  · cases hw
  · exact ⟨w, hw, rfl⟩

theorem Unmet.step (h : Unmet s) (hinv : KeyedInv s) (op : KeyedOp) : Unmet (op.step s) := by
  have hunwait {t status may} : Unmet (unwait t status may s) := by
    unfold unwait
    split
    · exact h
    split
    · rename_i w hw _
      refine h.mono (fun _ _ h => h) fun u w' hw' => ?_
      rw [KeyedState.parked_setParked] at hw'
      split at hw'
      case isTrue hu =>
        cases hw'
        exact ⟨w, hu ▸ hw, rfl⟩
      case isFalse => exact ⟨w', hw', rfl⟩
    · exact h
  cases op with
  | call t args =>
    simp only [KeyedOp.step]
    split
    · rename_i hidle
      exact h.operation hinv (isNone_iff_eq_none.mp hidle)
    · exact h
  | finish t =>
    simp only [KeyedOp.step, finishOperation]
    split
    · exact h
    split
    · exact h
    · rename_i w _ status _
      have hparked u := KeyedState.parked_setParked s t u none
      split
      · exact h.unpark (fun _ _ h => h) hparked
      split
      · refine h.unpark (fun e => ?_) hparked
        show ((s.setParked t none).setWaiters _ _).waiters e ⊆ _
        rw [KeyedState.waiters_setWaiters]
        split
        case isTrue he => exact he ▸ erase_subset
        case isFalse => exact fun _ h => h
      · exact h.unpark (fun _ _ h => h) hparked
  | expire t => exact hunwait
  | alert t => exact hunwait
  | queueApc t => exact hunwait
  | terminate t => exact hunwait
  | flags t terminating rundownWait userApcPending alerted =>
    refine h.mono (fun _ _ h => h) fun u w hw => ⟨w, ?_, rfl⟩
    simp only [KeyedOp.step, KeyedState.threads_setThread] at hw
    split at hw
    · rename_i hu
      rw [hu]
      exact hw
    · exact hw

end

/-- **No rendezvous is missed.** Whatever interleaves, a wait and a release on the same event, process
and key are never queued at the same time. -/
theorem keyedEvents_meet (threads : Nat → KeyedThread) (ops : List KeyedOp) :
    Unmet (runKeyed ops (keyedStart threads)) := by
  suffices hrun : ∀ {s}, KeyedInv s → Unmet s → Unmet (runKeyed ops s) from
    hrun (keyedStart_inv threads) nofun
  induction ops with
  | nil => exact fun _ h => h
  | cons op ops ih => exact fun hinv h => ih (hinv.step op) (h.step hinv op)

end Proskrnl.Ob
