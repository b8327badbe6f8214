import Proskrnl.Abi.Status

/-!
# The dispatcher

`kernel/ke/wait.c` with the objects it serves: events, semaphores, mutants, timers, threads and the
suspend gates (`event.c`, `sema.c`, `mutex.c`, `timer.c`, `apc.c`, `thread.c`, and the parts of
`kernel/ps` that signal). Each definition is what the source does while it holds the dispatcher lock,
so a state between two steps is one in which the lock is free. One thread runs at a time; `none` as
the current thread is the idle thread, and any thread that is ready may be the next to run.

An object is there from the start and unused before its first use. A run is stopped by a failed
assertion, by a panic, or by the trap of a signed overflow (the kernel is built with
`-fsanitize-trap=undefined`).

Three fields record what the code does and are read by no code: the number of a wait in its blocks,
what was taken for the current wait of a thread, and the history.
-/

namespace Proskrnl.Ke

/-- A `KTHREAD`. -/
abbrev Tid := Nat

/-- `DISPATCHER_HEADER.type`. -/
inductive ObjectType
  | notificationEvent
  | synchronizationEvent
  | mutant
  | process
  | semaphore
  | thread
  | notificationTimer
  | synchronizationTimer
  deriving DecidableEq

/-- An object that a wait may name: an object body, the header of a `KTHREAD`, or the gate on which
a suspended thread parks. -/
inductive Waitable
  | body (n : Nat)
  | thread (t : Tid)
  | gate (t : Tid)
  deriving DecidableEq

/-- A dispatcher object: one that can be named, or the timer for the timeouts of a thread. -/
inductive ObjId
  | waitable (w : Waitable)
  | timeout (t : Tid)
  deriving DecidableEq

inductive WaitType
  | waitAll
  | waitAny
  deriving DecidableEq

structure KWaitBlock where
  thread : Tid
  object : ObjId
  waitKey : Nat
  waitType : WaitType
  arming : Nat
  deriving DecidableEq

/-- A dispatcher object: the header and the fields of `KSEMAPHORE`, `KMUTANT` and `KTIMER`. -/
structure KObject where
  type : ObjectType
  signalState : Int := 0
  waitList : List KWaitBlock := []
  limit : Int := 0
  ownerThread : Option Tid := none
  abandoned : Bool := false
  inserted : Bool := false
  dueTime : UInt64 := 0
  period : Int := 0

/-- `KTHREAD.state`. -/
inductive ThreadState
  | initialized
  | ready
  | running
  | waiting
  | terminated
  deriving DecidableEq

/-- The fields of a `KTHREAD` that the dispatcher uses. `userApcs` is the length of its APC list,
`isUser` whether it has a thread object. -/
structure KThread where
  state : ThreadState := .initialized
  waitStatus : NtStatus := statusSuccess
  waitBlockList : List KWaitBlock := []
  timerWaitBlock : KWaitBlock
  timerArmed : Bool := false
  mutantList : List ObjId := []
  userApcs : Nat := 0
  userApcPending : Bool := false
  apcDeliverPending : Bool := false
  alerted : Bool := false
  waitAlertable : Bool := false
  suspendCount : Int := 0
  terminating : Bool := false
  rundownWait : Bool := false
  isUser : Bool := false
  /-- The objects taken for the current wait, and which of them were abandoned. -/
  taken : List (ObjId × Bool) := []

inductive Event
  /-- The signal state of an object is set: an event, a timer that expires, an exit. -/
  | signalled (x : ObjId)
  /-- The signal state is reset. -/
  | cleared (x : ObjId)
  /-- A semaphore is released. -/
  | released (x : ObjId) (count : Int)
  /-- A wait on the object completes for the thread; whether it was abandoned. -/
  | consumed (t : Tid) (x : ObjId) (wasAbandoned : Bool)
  /-- A mutant is released once by its owner. -/
  | unlocked (t : Tid) (x : ObjId)
  /-- A mutant is released by the exit of its owner. -/
  | abandoned (x : ObjId)
  /-- A mutant is deleted. -/
  | deleted (x : ObjId)
  /-- A wait is completed by a signaller, of all those that could be completed then. -/
  | woke (arming : Nat) (eligible : List Nat)
  /-- A wait on these objects returns, with what was taken for it. -/
  | returned (t : Tid) (waitType : WaitType) (objects : List ObjId) (status : NtStatus)
    (taken : List (ObjId × Bool))
  deriving DecidableEq

structure KeState where
  objects : ObjId → KObject
  threads : Tid → KThread
  /-- `KiTimerListHead`. -/
  timerList : List ObjId := []
  /-- `KiInterruptTime`. -/
  interruptTime : UInt64 := 0
  /-- `KiSystemTimeBase`. -/
  systemTimeBase : UInt64 := 0
  /-- `KiCurrentThread`, when it is not the idle thread. -/
  current : Option Tid := none
  /-- How many waits were armed. -/
  armings : Nat := 0
  /-- What happened so far, the last first. -/
  history : List Event := []

inductive Assertion
  /-- `KiSatisfyObject`: a wait may only consume a count. -/
  | semaphoreCount
  /-- `KiUnwaitThread`, `KiAlertWaitingThread`: the thread waits. -/
  | waiting
  /-- `KiReadyThread`: the thread is neither ready nor terminated. -/
  | notReady
  /-- `KiInsertTimer`: the timer is not inserted. -/
  | timerIdle
  /-- `KiRemoveTimer`: the timer is inserted. -/
  | timerInserted
  /-- `KiReleaseMutant`: the mutant is held. -/
  | mutantHeld
  /-- An argument has the type the function is for. -/
  | argument
  deriving DecidableEq

inductive Halt
  | assertion (which : Assertion)
  /-- The trap of a signed overflow. -/
  | overflow
  /-- `KiPanic`. -/
  | panic
  /-- The loop of `KiWaitTest`, or that of `KiTerminateThread`, does not end. -/
  | unfinished
  /-- The expiry loop has not ended in the rounds it was given. -/
  | ticking
  deriving DecidableEq

/-- The stops that the kernel's own state does not decide: an overflow, a call that breaks the
contract of the function, and a tick that was not followed to its end. -/
def Halt.external : Halt → Prop
  | .assertion .argument => True
  | .assertion _ => False
  | .unfinished => False
  | .overflow => True
  | .panic => True
  | .ticking => True

/-- The least `LONG`. -/
def longMin : Int := -2147483648

/-- The greatest `LONG`. -/
def longMax : Int := 2147483647

namespace KeState

def setObject (s : KeState) (x : ObjId) (o : KObject) : KeState :=
  { s with objects := Function.update s.objects x o }

def setThread (s : KeState) (t : Tid) (th : KThread) : KeState :=
  { s with threads := Function.update s.threads t th }

def note (s : KeState) (e : Event) : KeState := { s with history := e :: s.history }

/-- `RemoveEntryList` on wait blocks: each leaves the list it is on. -/
def unlink (s : KeState) (blocks : List KWaitBlock) : KeState :=
  { s with objects := fun x =>
      { s.objects x with waitList := (s.objects x).waitList.filter (· ∉ blocks) } }

/-- `RemoveEntryList` on a mutant: it leaves the list it is on. -/
def unlinkMutant (s : KeState) (m : ObjId) : KeState :=
  { s with threads := fun t =>
      { s.threads t with mutantList := (s.threads t).mutantList.filter (· ≠ m) } }

def setSignal (s : KeState) (x : ObjId) (value : Int) : KeState :=
  s.setObject x { s.objects x with signalState := value }

section
variable (s : KeState) (x y : ObjId) (o : KObject) (t u : Tid) (th : KThread) (e : Event)

@[simp] theorem objects_setObject :
    (s.setObject x o).objects y = if y = x then o else s.objects y := Function.update_apply ..

@[simp] theorem threads_setObject : (s.setObject x o).threads = s.threads := rfl

@[simp] theorem timerList_setObject : (s.setObject x o).timerList = s.timerList := rfl

@[simp] theorem current_setObject : (s.setObject x o).current = s.current := rfl

@[simp] theorem armings_setObject : (s.setObject x o).armings = s.armings := rfl

@[simp] theorem history_setObject : (s.setObject x o).history = s.history := rfl

@[simp] theorem threads_setThread :
    (s.setThread t th).threads u = if u = t then th else s.threads u := Function.update_apply ..

@[simp] theorem objects_setThread : (s.setThread t th).objects = s.objects := rfl

@[simp] theorem timerList_setThread : (s.setThread t th).timerList = s.timerList := rfl

@[simp] theorem current_setThread : (s.setThread t th).current = s.current := rfl

@[simp] theorem armings_setThread : (s.setThread t th).armings = s.armings := rfl

@[simp] theorem history_setThread : (s.setThread t th).history = s.history := rfl

@[simp] theorem objects_note : (s.note e).objects = s.objects := rfl

@[simp] theorem threads_note : (s.note e).threads = s.threads := rfl

@[simp] theorem timerList_note : (s.note e).timerList = s.timerList := rfl

@[simp] theorem current_note : (s.note e).current = s.current := rfl

@[simp] theorem armings_note : (s.note e).armings = s.armings := rfl

@[simp] theorem history_note : (s.note e).history = e :: s.history := rfl

@[simp] theorem threads_unlink (blocks : List KWaitBlock) : (s.unlink blocks).threads = s.threads :=
  rfl

@[simp] theorem timerList_unlink (blocks : List KWaitBlock) :
    (s.unlink blocks).timerList = s.timerList := rfl

@[simp] theorem current_unlink (blocks : List KWaitBlock) :
    (s.unlink blocks).current = s.current := rfl

@[simp] theorem armings_unlink (blocks : List KWaitBlock) :
    (s.unlink blocks).armings = s.armings := rfl

@[simp] theorem history_unlink (blocks : List KWaitBlock) :
    (s.unlink blocks).history = s.history := rfl

@[simp] theorem objects_unlinkMutant : (s.unlinkMutant x).objects = s.objects := rfl

@[simp] theorem history_unlinkMutant : (s.unlinkMutant x).history = s.history := rfl

end

end KeState

def kiIsSatisfiable (o : KObject) (t : Tid) : Bool :=
  decide (0 < o.signalState) || (o.type == .mutant && o.ownerThread == some t)

/-- What completing one wait does to an object, and whether an abandoned mutant was acquired. -/
def satisfied (o : KObject) (t : Tid) : Except Halt (Bool × KObject) :=
  match o.type with
  | .synchronizationEvent => .ok (false, { o with signalState := 0 })
  | .synchronizationTimer => .ok (false, { o with signalState := 0 })
  | .semaphore =>
    if 0 < o.signalState then .ok (false, { o with signalState := o.signalState - 1 })
    else .error (.assertion .semaphoreCount)
  | .mutant =>
    if o.signalState = longMin then .error .overflow
    else if o.ownerThread = some t then
      .ok (o.abandoned, { o with signalState := o.signalState - 1 })
    else
      .ok (o.abandoned,
        { o with signalState := o.signalState - 1, ownerThread := some t, abandoned := false })
  | _ => .ok (false, o)

/-- The thread with a mutant it newly owns at the tail of its list. -/
def acquire (o : KObject) (x : ObjId) (t : Tid) (th : KThread) : KThread :=
  if o.type = .mutant ∧ o.ownerThread ≠ some t then { th with mutantList := th.mutantList ++ [x] }
  else th

/-- The record of a completed wait; the timeout of a wait takes nothing. -/
def noteConsumed (x : ObjId) (t : Tid) (wasAbandoned : Bool) (s : KeState) : KeState :=
  match x with
  | .timeout _ => s
  | .waitable _ =>
    (s.setThread t { s.threads t with taken := (s.threads t).taken ++ [(x, wasAbandoned)] }).note
      (.consumed t x wasAbandoned)

def kiSatisfyObject (x : ObjId) (t : Tid) (s : KeState) : Except Halt (Bool × KeState) := do
  let (wasAbandoned, o) ← satisfied (s.objects x) t
  let s := (s.setObject x o).setThread t (acquire (s.objects x) x t (s.threads t))
  .ok (wasAbandoned, noteConsumed x t wasAbandoned s)

/-- The loop that satisfies every object of a wait-all, here and in `KeWaitForMultipleObjects`: the
status is bare, without an index. -/
def satisfyAll (t : Tid) : List ObjId → NtStatus → KeState → Except Halt (NtStatus × KeState)
  | [], status, s => .ok (status, s)
  | x :: rest, status, s => do
    let (wasAbandoned, s) ← kiSatisfyObject x t s
    satisfyAll t rest
      (if wasAbandoned && status == statusSuccess then statusAbandonedWait0 else status) s

def kiInsertTimer (x : ObjId) (dueInterruptTime : UInt64) (s : KeState) : Except Halt KeState :=
  if (s.objects x).inserted then .error (.assertion .timerIdle)
  else
    let earlier (y : ObjId) : Bool := decide ((s.objects y).dueTime ≤ dueInterruptTime)
    .ok { s.setObject x { s.objects x with dueTime := dueInterruptTime, inserted := true } with
      timerList := s.timerList.takeWhile earlier ++ x :: s.timerList.dropWhile earlier }

def kiRemoveTimer (x : ObjId) (s : KeState) : Except Halt KeState :=
  if (s.objects x).inserted then
    .ok { s.setObject x { s.objects x with inserted := false } with
      timerList := s.timerList.erase x }
  else .error (.assertion .timerInserted)

/-- Negative is relative to now, the rest is system time. -/
def kiComputeDueTime (timeout : Int64) (s : KeState) : UInt64 :=
  if timeout < 0 then s.interruptTime + (0 - timeout.toUInt64)
  else if timeout.toUInt64 ≤ s.systemTimeBase then s.interruptTime
  else timeout.toUInt64 - s.systemTimeBase

def kiReadyThread (t : Tid) (s : KeState) : Except Halt KeState :=
  if (s.threads t).state = .ready ∨ (s.threads t).state = .terminated then
    .error (.assertion .notReady)
  else .ok (s.setThread t { s.threads t with state := .ready })

def KThread.waitObjects (th : KThread) : List ObjId := th.waitBlockList.map KWaitBlock.object

/-- The type of a thread's wait; a pure delay has a timeout block only. -/
def KThread.waitTypeOf (th : KThread) : WaitType :=
  match th.waitBlockList with
  | [] => .waitAny
  | b :: _ => b.waitType

/-- The part of `KiUnwaitThread` for the wait blocks. -/
def unlinkBlocks (t : Tid) (s : KeState) : KeState :=
  (s.unlink (s.threads t).waitBlockList).setThread t { s.threads t with waitBlockList := [] }

/-- The part of `KiUnwaitThread` for a timeout. -/
def disarmTimeout (t : Tid) (s : KeState) : Except Halt KeState :=
  if (s.threads t).timerArmed then do
    let s := s.unlink [(s.threads t).timerWaitBlock]
    let s ← if (s.objects (.timeout t)).inserted then kiRemoveTimer (.timeout t) s else .ok s
    .ok (s.setThread t { s.threads t with timerArmed := false })
  else .ok s

def kiUnwaitThread (t : Tid) (status : NtStatus) (s : KeState) : Except Halt KeState :=
  if (s.threads t).state ≠ .waiting then .error (.assertion .waiting)
  else do
    let s := s.note (.returned t (s.threads t).waitTypeOf (s.threads t).waitObjects status
      (s.threads t).taken)
    let s ← disarmTimeout t (unlinkBlocks t s)
    let s := s.setThread t { s.threads t with waitStatus := status }
    kiReadyThread t s

def kiIsWaitAllSatisfiable (s : KeState) (t : Tid) : Bool :=
  (s.threads t).waitBlockList.all fun b => kiIsSatisfiable (s.objects b.object) t

/-- Whether the loop of `KiWaitTest` stops at a block of a signalled object. -/
def eligible (s : KeState) (b : KWaitBlock) : Bool :=
  b.waitType == .waitAny || kiIsWaitAllSatisfiable s b.thread

def kiSatisfyWaitAll (t : Tid) (s : KeState) : Except Halt (NtStatus × KeState) :=
  satisfyAll t (s.threads t).waitObjects statusSuccess s

/-- The body of `KiWaitTest` at the block where it stops. -/
def completeBlock (x : ObjId) (b : KWaitBlock) (s : KeState) : Except Halt KeState := do
  let s := s.note (.woke b.arming
    (((s.objects x).waitList.filter (eligible s)).map KWaitBlock.arming))
  match b.waitType with
  | .waitAny =>
    let (wasAbandoned, s) ← kiSatisfyObject x b.thread s
    let status := UInt32.ofNat b.waitKey
    kiUnwaitThread b.thread (if wasAbandoned then statusAbandonedWait0 + status else status) s
  | .waitAll =>
    let (status, s) ← kiSatisfyWaitAll b.thread s
    kiUnwaitThread b.thread status s

/-- The rounds of `KiWaitTest`, each from `restart` on. -/
def waitTestFrom : Nat → ObjId → KeState → Except Halt KeState
  | 0, _, _ => .error .unfinished
  | rounds + 1, x, s =>
    if (s.objects x).signalState ≤ 0 then .ok s
    else
      match (s.objects x).waitList.find? (eligible s) with
      | none => .ok s
      | some b => do
        let s ← completeBlock x b s
        waitTestFrom rounds x s

/-- `KiWaitTest`. A round takes a block off the list, so its length bounds the rounds. -/
def kiWaitTest (x : ObjId) (s : KeState) : Except Halt KeState :=
  waitTestFrom ((s.objects x).waitList.length + 1) x s

/-! ## Waits -/

def kiArmWaitTimeout (t : Tid) (timeout : Int64) (s : KeState) : Except Halt KeState := do
  let block : KWaitBlock :=
    { thread := t, object := .timeout t, waitKey := statusTimeout.toNat, waitType := .waitAny,
      arming := s.armings }
  let s := s.setThread t { s.threads t with timerWaitBlock := block }
  let o := s.objects (.timeout t)
  let s := s.setObject (.timeout t) { o with signalState := 0, waitList := o.waitList ++ [block] }
  let s ← kiInsertTimer (.timeout t) (kiComputeDueTime timeout s) s
  .ok (s.setThread t { s.threads t with timerArmed := true })

/-- The wait blocks for the objects, numbered from `key` on. -/
def waitBlocks (t : Tid) (waitType : WaitType) (arming : Nat) : Nat → List ObjId → List KWaitBlock
  | _, [] => []
  | key, x :: rest =>
    { thread := t, object := x, waitKey := key, waitType, arming } ::
      waitBlocks t waitType arming (key + 1) rest

/-- The loop that links the wait blocks at the tails of the objects' lists. -/
def armBlocks (t : Tid) (blocks : List KWaitBlock) (s : KeState) : KeState :=
  let s := { s with objects := fun x =>
    { s.objects x with waitList := (s.objects x).waitList ++ blocks.filter fun b : KWaitBlock => b.object = x } }
  s.setThread t { s.threads t with waitBlockList := blocks }

/-- `KiCommitWait` up to the switch: the thread that ran does not run on. -/
def kiCommitWait (t : Tid) (alertable : Bool) (s : KeState) : KeState :=
  { s.setThread t { s.threads t with state := .waiting, waitAlertable := alertable } with
    current := none, armings := s.armings + 1 }

def waitReturns (t : Tid) (waitType : WaitType) (objects : List ObjId) (status : NtStatus)
    (s : KeState) : KeState :=
  s.note (.returned t waitType objects status (s.threads t).taken)

def kiWaitAbortedForTermination (th : KThread) : Bool :=
  th.terminating && th.isUser && !th.rundownWait

/-- The pending APC or alert that completes an alertable wait at once. -/
def takeAlert (t : Tid) (s : KeState) : NtStatus × KeState :=
  let th := s.threads t
  if th.userApcPending then (statusUserApc, s.setThread t { th with apcDeliverPending := true })
  else (statusAlerted, s.setThread t { th with alerted := false })

/-- The first object of a wait-any that is satisfiable, with its index. -/
def firstSatisfiable (s : KeState) (t : Tid) : Nat → List ObjId → Option (Nat × ObjId)
  | _, [] => none
  | i, x :: rest =>
    if kiIsSatisfiable (s.objects x) t then some (i, x) else firstSatisfiable s t (i + 1) rest

def armTimeout (t : Tid) (timeout : Option Int64) (s : KeState) : Except Halt KeState :=
  match timeout with
  | none => .ok s
  | some timeout => kiArmWaitTimeout t timeout s

/-- `KeWaitForMultipleObjects` after immediate satisfaction has failed: the alert, the zero timeout,
and the park. -/
def waitOrPark (t : Tid) (objects : List ObjId) (waitType : WaitType) (alertable : Bool)
    (timeout : Option Int64) (s : KeState) : Except Halt KeState :=
  if alertable && ((s.threads t).userApcPending || (s.threads t).alerted) then
    let (status, s) := takeAlert t s
    .ok (waitReturns t waitType objects status s)
  else if timeout = some 0 then .ok (waitReturns t waitType objects statusTimeout s)
  else do
    let s := armBlocks t (waitBlocks t waitType s.armings 0 objects) s
    let s ← armTimeout t timeout s
    .ok (kiCommitWait t alertable s)

/-- `KeWaitForMultipleObjects` by the current thread; `array` is whether the caller gives wait
blocks. -/
def keWaitForMultipleObjects (t : Tid) (objects : List ObjId) (waitType : WaitType)
    (array alertable : Bool) (timeout : Option Int64) (s : KeState) : Except Halt KeState :=
  let s := s.setThread t { s.threads t with taken := [] }
  if objects.length = 0 ∨ objects.length > 64 then .error .panic
  else if ¬ array ∧ objects.length > 3 then .error .panic
  else if waitType = .waitAll ∧ ¬ objects.Nodup then
    .ok (waitReturns t waitType objects statusInvalidParameter s)
  else if kiWaitAbortedForTermination (s.threads t) then
    .ok (waitReturns t waitType objects statusThreadIsTerminating s)
  else
    match waitType with
    | .waitAny =>
      match firstSatisfiable s t 0 objects with
      | some (i, x) => do
        let (wasAbandoned, s) ← kiSatisfyObject x t s
        let status := UInt32.ofNat i
        .ok (waitReturns t waitType objects
          (if wasAbandoned then statusAbandonedWait0 + status else status) s)
      | none => waitOrPark t objects waitType alertable timeout s
    | .waitAll =>
      if objects.all fun x => kiIsSatisfiable (s.objects x) t then do
        let (status, s) ← satisfyAll t objects statusSuccess s
        .ok (waitReturns t waitType objects status s)
      else waitOrPark t objects waitType alertable timeout s

def kiYield (t : Tid) (s : KeState) : Except Halt KeState := do
  let s ← kiReadyThread t s
  .ok { s with current := none }

def keDelayExecutionThread (t : Tid) (alertable : Bool) (interval : Int64) (s : KeState) :
    Except Halt KeState :=
  let s := s.setThread t { s.threads t with taken := [] }
  if kiWaitAbortedForTermination (s.threads t) then
    .ok (waitReturns t .waitAny [] statusThreadIsTerminating s)
  else if alertable && ((s.threads t).userApcPending || (s.threads t).alerted) then
    let (status, s) := takeAlert t s
    .ok (waitReturns t .waitAny [] status s)
  else if interval = 0 then kiYield t s
  else do
    let s := s.setThread t { s.threads t with waitBlockList := [] }
    let s ← kiArmWaitTimeout t interval s
    .ok (kiCommitWait t alertable s)

/-! ## Signals -/

/-- `KiAssertIsEvent`. -/
def isEvent (type : ObjectType) : Bool :=
  type == .notificationEvent || type == .synchronizationEvent

def signal (x : ObjId) (s : KeState) : Except Halt KeState :=
  kiWaitTest x ((s.setSignal x 1).note (.signalled x))

def clear (x : ObjId) (s : KeState) : KeState := (s.setSignal x 0).note (.cleared x)

def keSetEvent (x : ObjId) (s : KeState) : Except Halt KeState :=
  if isEvent (s.objects x).type then signal x s else .error (.assertion .argument)

def keResetEvent (x : ObjId) (s : KeState) : Except Halt KeState :=
  if isEvent (s.objects x).type then .ok (clear x s) else .error (.assertion .argument)

def kiPulseEvent (x : ObjId) (s : KeState) : Except Halt KeState :=
  if isEvent (s.objects x).type then do
    let s ← signal x s
    .ok (clear x s)
  else .error (.assertion .argument)

/-- The sum of two `LONG`s traps when it overflows. -/
def keReleaseSemaphore (x : ObjId) (count : Int) (s : KeState) : Except Halt KeState :=
  let o := s.objects x
  if o.type ≠ .semaphore then .error (.assertion .argument)
  else if count < 1 then .error .panic
  else if o.signalState + count > longMax then .error .overflow
  else if o.signalState + count > o.limit then .error .panic
  else kiWaitTest x ((s.setSignal x (o.signalState + count)).note (.released x count))

def kiReleaseMutant (x : ObjId) (abandoned : Bool) (s : KeState) : Except Halt KeState :=
  let o := s.objects x
  if o.type ≠ .mutant then .error (.assertion .argument)
  else if abandoned then
    let s := s.setObject x { o with signalState := 1, abandoned := true, ownerThread := none }
    kiWaitTest x ((s.unlinkMutant x).note (.abandoned x))
  else
    match s.current with
    | none => .error .panic
    | some t =>
      if o.ownerThread ≠ some t then .error .panic
      else if 0 < o.signalState then .error (.assertion .mutantHeld)
      else if o.signalState + 1 = 1 then
        let s := s.setObject x { o with signalState := 1, ownerThread := none }
        kiWaitTest x ((s.unlinkMutant x).note (.unlocked t x))
      else
        .ok ((s.setObject x { o with signalState := o.signalState + 1 }).note (.unlocked t x))

def keCancelTimer (x : ObjId) (s : KeState) : Except Halt KeState :=
  if (s.objects x).inserted then kiRemoveTimer x s else .ok s

def keSetTimerEx (x : ObjId) (dueTime : Int64) (period : Int) (s : KeState) :
    Except Halt KeState :=
  if (s.objects x).type ≠ .notificationTimer ∧ (s.objects x).type ≠ .synchronizationTimer then
    .error (.assertion .argument)
  else if period < 0 then .error .panic
  else do
    let s ← keCancelTimer x s
    let s := clear x s
    let s := s.setObject x { s.objects x with period }
    kiInsertTimer x (kiComputeDueTime dueTime s) s

/-- A periodic timer is inserted again, from now on; the period is in milliseconds. -/
def rearm (x : ObjId) (s : KeState) : Except Halt KeState :=
  if (s.objects x).period ≠ 0 then
    kiInsertTimer x (s.interruptTime + UInt64.ofInt (s.objects x).period * 10000) s
  else .ok s

/-- The expiry loop of `KiUpdateClock`, for so many rounds at most. -/
def expireTimers : Nat → KeState → Except Halt KeState
  | rounds, s =>
    match s.timerList with
    | [] => .ok s
    | x :: _ =>
      if (s.objects x).dueTime > s.interruptTime then .ok s
      else
        match rounds with
        | 0 => .error .ticking
        | rounds + 1 => do
          let s ← kiRemoveTimer x s
          let s ← rearm x s
          let s ← signal x s
          expireTimers rounds s

def kiUpdateClock (ticks : UInt64) (rounds : Nat) (s : KeState) : Except Halt KeState :=
  expireTimers rounds { s with interruptTime := s.interruptTime + ticks * 10000 }

/-! ## APCs, alerts and termination -/

/-- `routine` is whether there is an APC to queue. -/
def kiInsertQueueUserApc (t : Tid) (routine : Bool) (s : KeState) : Except Halt KeState :=
  let th := s.threads t
  if th.state = .terminated ∨ routine = false then .ok s
  else
    let th := { th with userApcs := th.userApcs + 1, userApcPending := true }
    if th.state = .waiting ∧ th.waitAlertable then
      kiUnwaitThread t statusUserApc
        (s.setThread t { th with apcDeliverPending := true, waitAlertable := false })
    else .ok (s.setThread t th)

def pspAlertTcbLocked (t : Tid) (s : KeState) : Except Halt KeState :=
  let th := s.threads t
  if th.state = .waiting ∧ th.waitAlertable then
    kiUnwaitThread t statusAlerted (s.setThread t { th with waitAlertable := false })
  else .ok (s.setThread t { th with alerted := true })

def kiTestAlertCurrentThread (t : Tid) (s : KeState) : KeState :=
  let th := s.threads t
  s.setThread t { th with
    alerted := false, apcDeliverPending := th.apcDeliverPending || decide (th.userApcs ≠ 0) }

def kiDeliverUserApc (t : Tid) (s : KeState) : KeState :=
  let th := s.threads t
  if th.userApcs = 0 then s.setThread t { th with apcDeliverPending := false }
  else if th.userApcs = 1 then
    s.setThread t { th with userApcs := 0, userApcPending := false, apcDeliverPending := false }
  else s.setThread t { th with userApcs := th.userApcs - 1 }

def kiAbortThreadWait (t : Tid) (s : KeState) : Except Halt KeState :=
  if (s.threads t).isUser = false then .error (.assertion .argument)
  else if (s.threads t).rundownWait then .ok s
  else if (s.threads t).state = .waiting then kiUnwaitThread t statusThreadIsTerminating s
  else .ok s

def pspFlagThreadTermination (t : Tid) (s : KeState) : Except Halt KeState := do
  let s := s.setThread t { s.threads t with terminating := true, suspendCount := 0 }
  let s ← signal (.waitable (.gate t)) s
  if (s.threads t).state = .waiting then kiAbortThreadWait t s
  else if (s.threads t).state = .initialized then kiReadyThread t s
  else .ok s

def pspSuspendTcb (t : Tid) (s : KeState) : Except Halt KeState :=
  let th := s.threads t
  if th.suspendCount = longMax then .error .overflow
  else
    let s := s.setThread t { th with suspendCount := th.suspendCount + 1 }
    if th.suspendCount = 0 then .ok (clear (.waitable (.gate t)) s) else .ok s

def pspResumeTcb (t : Tid) (s : KeState) : Except Halt KeState :=
  let th := s.threads t
  if th.suspendCount > 0 then
    let s := s.setThread t { th with suspendCount := th.suspendCount - 1 }
    if th.suspendCount = 1 then do
      let s ← signal (.waitable (.gate t)) s
      if (s.threads t).state = .initialized then kiReadyThread t s else .ok s
    else .ok s
  else .ok s

/-- The loop of `KiTerminateThread` over the mutants of the thread. -/
def abandonMutants (t : Tid) : Nat → KeState → Except Halt KeState
  | 0, _ => .error .unfinished
  | rounds + 1, s =>
    match (s.threads t).mutantList with
    | [] => .ok s
    | x :: _ => do
      let s ← kiReleaseMutant x true s
      abandonMutants t rounds s

def kiTerminateThread (t : Tid) (s : KeState) : Except Halt KeState := do
  let s ← abandonMutants t ((s.threads t).mutantList.length + 1) s
  let s := s.setThread t { s.threads t with
    userApcs := 0, userApcPending := false, apcDeliverPending := false, state := .terminated }
  signal (.waitable (.thread t)) { s with current := none }

/-- The signal of a process or a thread object at its exit (`PspRetireCurrentThread`,
`PspExitCurrentThread`). -/
def signalExit (x : ObjId) (s : KeState) : Except Halt KeState :=
  if (s.objects x).type = .process ∨ (s.objects x).type = .thread then signal x s
  else .error (.assertion .argument)

def keInitializeEvent (notification state : Bool) : KObject :=
  { type := if notification then .notificationEvent else .synchronizationEvent
    signalState := if state then 1 else 0 }

def keInitializeSemaphore (count limit : Int) : Except Halt KObject :=
  if count < 0 ∨ limit < 1 ∨ count > limit then .error .panic
  else .ok { type := .semaphore, signalState := count, limit }

def keInitializeMutex : KObject := { type := .mutant, signalState := 1 }

def keInitializeTimerEx (notification : Bool) : KObject :=
  { type := if notification then .notificationTimer else .synchronizationTimer }

/-- `ObpDeleteMutant`, when no wait holds a reference on the body: the body is free for another
mutant. -/
def obpDeleteMutant (x : ObjId) (s : KeState) : Except Halt KeState :=
  if (s.objects x).type ≠ .mutant then .error (.assertion .argument)
  else if (s.objects x).waitList ≠ [] then .ok s
  else
    let s := if (s.objects x).ownerThread ≠ none then s.unlinkMutant x else s
    .ok ((s.setObject x keInitializeMutex).note (.deleted x))

/-! ## Runs -/

/-- One step: a call by the running thread, by any code, or the choice of the thread to run. -/
inductive Op
  | wait (objects : List Waitable) (waitType : WaitType) (array alertable : Bool)
    (timeout : Option Int64)
  | delay (alertable : Bool) (interval : Int64)
  | setEvent (w : Waitable)
  | resetEvent (w : Waitable)
  | pulseEvent (w : Waitable)
  | releaseSemaphore (w : Waitable) (count : Int)
  | releaseMutex (w : Waitable)
  | deleteMutant (w : Waitable)
  | setTimer (w : Waitable) (dueTime : Int64) (period : Int)
  | cancelTimer (w : Waitable)
  | tick (ticks : UInt64) (rounds : Nat)
  | queueApc (t : Tid) (routine : Bool)
  | alert (t : Tid)
  | testAlert
  | deliverApc
  | rundown (on : Bool)
  | flagTermination (t : Tid)
  | abortWait (t : Tid)
  | suspend (t : Tid)
  | resume (t : Tid)
  | signalExit (w : Waitable)
  | terminate
  | yield
  | readyCreated (t : Tid)
  | dispatch (t : Tid)

/-- A call of the thread that runs; without one there is no such call. -/
def byCurrent (s : KeState) (call : Tid → Except Halt KeState) : Except Halt KeState :=
  match s.current with
  | none => .ok s
  | some t => call t

/-- One step. A thread that is dispatched out of a wait runs on behind `KiCommitWait`. -/
def step (op : Op) (s : KeState) : Except Halt KeState :=
  match op with
  | .wait objects waitType array alertable timeout => byCurrent s fun t =>
    keWaitForMultipleObjects t (objects.map .waitable) waitType array alertable timeout s
  | .delay alertable interval => byCurrent s fun t => keDelayExecutionThread t alertable interval s
  | .setEvent w => keSetEvent (.waitable w) s
  | .resetEvent w => keResetEvent (.waitable w) s
  | .pulseEvent w => kiPulseEvent (.waitable w) s
  | .releaseSemaphore w count => keReleaseSemaphore (.waitable w) count s
  | .releaseMutex w => kiReleaseMutant (.waitable w) false s
  | .deleteMutant w => obpDeleteMutant (.waitable w) s
  | .setTimer w dueTime period => keSetTimerEx (.waitable w) dueTime period s
  | .cancelTimer w => keCancelTimer (.waitable w) s
  | .tick ticks rounds => kiUpdateClock ticks rounds s
  | .queueApc t routine => kiInsertQueueUserApc t routine s
  | .alert t => pspAlertTcbLocked t s
  | .testAlert => byCurrent s fun t => .ok (kiTestAlertCurrentThread t s)
  | .deliverApc => byCurrent s fun t => .ok (kiDeliverUserApc t s)
  | .rundown on => byCurrent s fun t =>
    .ok (s.setThread t { s.threads t with rundownWait := on })
  | .flagTermination t => pspFlagThreadTermination t s
  | .abortWait t => kiAbortThreadWait t s
  | .suspend t => pspSuspendTcb t s
  | .resume t => pspResumeTcb t s
  | .signalExit w => signalExit (.waitable w) s
  | .terminate => byCurrent s fun t => kiTerminateThread t s
  | .yield => byCurrent s fun t => kiYield t s
  | .readyCreated t => if (s.threads t).state = .initialized then kiReadyThread t s else .ok s
  | .dispatch t =>
    if s.current = none ∧ (s.threads t).state = .ready then
      .ok { s.setThread t { s.threads t with state := .running, waitAlertable := false } with
        current := some t }
    else .ok s

/-- An object as one of the `KeInitialize` functions leaves it. -/
inductive Fresh : KObject → Prop
  | event (notification state : Bool) : Fresh (keInitializeEvent notification state)
  | semaphore {count limit : Int} {o : KObject} : limit ≤ longMax →
    keInitializeSemaphore count limit = .ok o → Fresh o
  | mutex : Fresh keInitializeMutex
  | timer (notification : Bool) : Fresh (keInitializeTimerEx notification)
  | thread : Fresh { type := .thread }
  | process : Fresh { type := .process }

/-- The machine before the first step: fresh objects, and threads that were not readied. -/
structure Initial (s : KeState) : Prop where
  bodies : ∀ n, Fresh (s.objects (.waitable (.body n)))
  headers : ∀ t, s.objects (.waitable (.thread t)) = { type := .thread }
  gates : ∀ t, s.objects (.waitable (.gate t)) = keInitializeEvent true true
  timeouts : ∀ t, s.objects (.timeout t) = keInitializeTimerEx true
  threads : ∀ t, ∃ block isUser, s.threads t = { timerWaitBlock := block, isUser }
  timerList : s.timerList = []
  current : s.current = none
  history : s.history = []

inductive Run (s0 : KeState) : KeState → Prop
  | refl : Run s0 s0
  | step {s s' : KeState} {op : Op} : Run s0 s → Ke.step op s = .ok s' → Run s0 s'

end Proskrnl.Ke
