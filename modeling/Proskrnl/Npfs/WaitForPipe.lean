import Proskrnl.Ke.Dispatcher
import Proskrnl.Lib.Rtl
import Proskrnl.Library.Bytes
import Proskrnl.Library.Outcome
import Proskrnl.Npfs.Pipe

/-!
# Waiting for a pipe by name

`NpfsWaitForPipe` of `fs/npfs/pipe.c` over any bytes as its input. What it finds is an input of each
pass of its loop (`WaitCheck`): the pipes there are, the clock, and how the wait behind the check ends.
A read behind the last byte and a signed overflow stop the call.
-/

namespace Proskrnl.Npfs
open List Option

open Outcome (bind_eq_ok)

inductive WaitFault
  /-- A read behind the input. -/
  | outOfBounds
  /-- The trap of a signed overflow. -/
  | signedOverflow
  deriving DecidableEq

/-- `sizeof(FILE_PIPE_WAIT_FOR_BUFFER)` -/
def waitForBufferSize : Nat := 16

/-- `offsetof(FILE_PIPE_WAIT_FOR_BUFFER, Name)` -/
def waitNameOffset : Nat := 14

def readInput (input : List UInt8) (off length : Nat) : Except WaitFault (List UInt8) :=
  if input.length < off + length then .error .outOfBounds else .ok ((input.drop off).take length)

def readField (input : List UInt8) (off w : Nat) : Except WaitFault Nat :=
  (readInput input off w).map Bytes.ofLe

/-- `name.Length`, which is a `USHORT`. -/
def waitLength (nameLength : Nat) : Nat := nameLength / 2 * 2 % 65536

/-- `NPFS_PIPE`, with the state of its instances and whether each has a server end. -/
structure NamedPipe where
  name : WStr
  instances : List (PipeState × Bool) := []
  defaultTimeout : Int64 := 0

def npfsFindPipe (pipes : List NamedPipe) (name : WStr) : Option NamedPipe :=
  pipes.find? fun pipe => rtlEqualUnicodeString pipe.name name

def npfsHasListener (pipe : NamedPipe) : Bool :=
  pipe.instances.any fun candidate => candidate.1 = .listening && candidate.2

/-- How the wait of one pass ends: `NpfsListenersChangedEvent` is set, the clock gets to an interrupt
time before that, or the thread is called away. -/
inductive WaitEnd
  | signalled
  | elapsed (interruptTime : UInt64)
  | cancelled
  | terminating
  | alerted
  | userApc
  deriving DecidableEq

/-- What one pass of the loop meets. The system time is the base and the uptime together. -/
structure WaitCheck where
  pipes : List NamedPipe
  ke : Ke.KeState
  /-- `KiTickFraction` -/
  fraction : UInt64 := 0
  ended : WaitEnd
  inRange : ke.systemTimeBase.toNat + ke.interruptTime.toNat + fraction.toNat < 2 ^ 63

def WaitCheck.keQuerySystemTime (check : WaitCheck) : Int64 :=
  (check.ke.systemTimeBase + (check.ke.interruptTime + check.fraction)).toInt64

/-- `IoWaitCancellable` with the deadline; `none` while nothing has ended the wait. -/
def WaitCheck.ioWaitCancellable (check : WaitCheck) (deadline : Int64) : Option NtStatus :=
  match check.ended with
  | .signalled => some statusSuccess
  | .elapsed interruptTime =>
    if Ke.kiComputeDueTime deadline check.ke ≤ interruptTime then some statusTimeout else none
  | .cancelled => some statusCancelled
  | .terminating => some statusThreadIsTerminating
  | .alerted => some statusAlerted
  | .userApc => some statusUserApc

/-! ## The loop -/

/-- `now.QuadPart - timeout.QuadPart` for a relative time, the time itself for an absolute one. -/
def waitDeadline (timeout now : Int64) : Except WaitFault Int64 :=
  if timeout < 0 then
    if now.toInt - timeout.toInt < -2 ^ 63 ∨ 2 ^ 63 ≤ now.toInt - timeout.toInt then
      .error .signedOverflow
    else .ok (Int64.ofInt (now.toInt - timeout.toInt))
  else .ok timeout

inductive WaitOutcome
  | parked
  | answered (status : NtStatus)
  deriving DecidableEq

/-- A call as far as it got: the name of each lookup, and how it stands. -/
structure WaitRun where
  names : List WStr
  outcome : WaitOutcome
  deriving DecidableEq

def WaitRun.looked (name : WStr) (run : WaitRun) : WaitRun := { run with names := name :: run.names }

/-- `wait->TimeoutSpecified ? wait->Timeout : pipe->defaultTimeout` -/
def readTimeout (input : List UInt8) (pipe : NamedPipe) : Except WaitFault Int64 := do
  let specified ← readField input 12 1
  if specified ≠ 0 then
    let timeout ← readField input 0 8
    .ok (UInt64.ofNat timeout).toInt64
  else .ok pipe.defaultTimeout

/-- The loop of `NpfsWaitForPipe` for a name of some bytes, with the deadline once it is set. -/
def waitLoop (input : List UInt8) (length : Nat) :
    Option Int64 → List WaitCheck → Except WaitFault WaitRun
  | _, [] => .ok ⟨[], .parked⟩
  | deadline, check :: rest => do
    let bytes ← readInput input waitNameOffset length
    let name := Bytes.toUnits bytes
    match npfsFindPipe check.pipes name with
    | none => .ok ⟨[name], .answered statusObjectNameNotFound⟩
    | some pipe =>
      if npfsHasListener pipe then .ok ⟨[name], .answered statusSuccess⟩
      else do
        let deadline ← match deadline with
          | some deadline => .ok deadline
          | none => do
            let timeout ← readTimeout input pipe
            waitDeadline timeout check.keQuerySystemTime
        match check.ioWaitCancellable deadline with
        | none => .ok ⟨[name], .parked⟩
        | some status =>
          if status = statusTimeout then .ok ⟨[name], .answered statusIoTimeout⟩
          else if status ≠ statusSuccess then .ok ⟨[name], .answered status⟩
          else do
            let run ← waitLoop input length (some deadline) rest
            .ok (run.looked name)

def npfsWaitForPipe (input : List UInt8) (checks : List WaitCheck) : Except WaitFault WaitRun :=
  if input.length < waitForBufferSize then .ok ⟨[], .answered statusInvalidParameter⟩
  else do
    let nameLength ← readField input 8 4
    if input.length < waitNameOffset + nameLength then .ok ⟨[], .answered statusInvalidParameter⟩
    else waitLoop input (waitLength nameLength) none checks

/-- The `NameLength` of the request. -/
def givenLength (input : List UInt8) : Nat := Bytes.field input 8 4

def givenName (input : List UInt8) : List UInt8 := (input.drop waitNameOffset).take (givenLength input)

def WaitRefused (input : List UInt8) : Prop :=
  input.length < waitForBufferSize ∨ input.length < waitNameOffset + givenLength input

def requestedTimeout (input : List UInt8) (pipe : NamedPipe) : Int64 :=
  if Bytes.field input 12 1 ≠ 0 then (UInt64.ofNat (Bytes.field input 0 8)).toInt64 else pipe.defaultTimeout

/-- When the wait should end, from the time of its first check. -/
def requestedTime (timeout now : Int64) : Int :=
  if timeout < 0 then now.toInt - timeout.toInt else timeout.toInt

/-- The call honours its argument. Every name it looks for is the one that is given, the deadline is
computed, a timeout is answered when the clock is at the requested time, and a listener at a check is
answered with success. -/
structure HonoursWait (input : List UInt8) (checks : List WaitCheck)
    (result : Except WaitFault WaitRun) : Prop where
  inside : result ≠ .error .outOfBounds
  deadline : result ≠ .error .signedOverflow
  name {run : WaitRun} (hrun : result = .ok run) : ∀ name ∈ run.names, Bytes.ofUnits name = givenName input
  timely {run : WaitRun} {first : WaitCheck} {pipe : NamedPipe} {name : WStr} (hrun : result = .ok run)
    (hname : Bytes.ofUnits name = givenName input) (hfirst : checks.head? = some first)
    (hpipe : npfsFindPipe first.pipes name = some pipe)
    (htimeout : run.outcome = .answered statusIoTimeout) :
    ∃ last interruptTime, checks[run.names.length - 1]? = some last ∧
      last.ended = .elapsed interruptTime ∧
      requestedTime (requestedTimeout input pipe) first.keQuerySystemTime ≤
        last.ke.systemTimeBase.toNat + interruptTime.toNat
  success {run : WaitRun} {k : Nat} {check : WaitCheck} {pipe : NamedPipe} {name : WStr}
    (hrun : result = .ok run) (hname : Bytes.ofUnits name = givenName input)
    (hk : k < run.names.length) (hcheck : checks[k]? = some check)
    (hpipe : npfsFindPipe check.pipes name = some pipe) (hlistener : npfsHasListener pipe = true) :
    run.outcome = .answered statusSuccess

/-- The name is of whole units and its length fits a `USHORT`, and where the first check waits for a
relative time, the time at which it ends fits a `LONGLONG`. -/
def HonoursWhen (input : List UInt8) (first : WaitCheck) : Prop :=
  givenLength input % 2 = 0 ∧ givenLength input < 65536 ∧
    ∀ pipe, npfsFindPipe first.pipes (Bytes.toUnits (givenName input)) = some pipe →
      npfsHasListener pipe = false →
        requestedTime (requestedTimeout input pipe) first.keQuerySystemTime < 2 ^ 63

inductive Waits (name : WStr) (deadline : Int64) : List WaitCheck → WaitRun → Prop
  | out : Waits name deadline [] ⟨[], .parked⟩
  | missing {check : WaitCheck} {rest : List WaitCheck} (hfind : npfsFindPipe check.pipes name = none) :
    Waits name deadline (check :: rest) ⟨[name], .answered statusObjectNameNotFound⟩
  | listening {check : WaitCheck} {rest : List WaitCheck} {pipe : NamedPipe}
    (hfind : npfsFindPipe check.pipes name = some pipe) (hlistener : npfsHasListener pipe = true) :
    Waits name deadline (check :: rest) ⟨[name], .answered statusSuccess⟩
  | parked {check : WaitCheck} {rest : List WaitCheck} {pipe : NamedPipe}
    (hfind : npfsFindPipe check.pipes name = some pipe) (hlistener : npfsHasListener pipe = false)
    (hwait : check.ioWaitCancellable deadline = none) :
    Waits name deadline (check :: rest) ⟨[name], .parked⟩
  | timeout {check : WaitCheck} {rest : List WaitCheck} {pipe : NamedPipe}
    (hfind : npfsFindPipe check.pipes name = some pipe) (hlistener : npfsHasListener pipe = false)
    (hwait : check.ioWaitCancellable deadline = some statusTimeout) :
    Waits name deadline (check :: rest) ⟨[name], .answered statusIoTimeout⟩
  | broken {check : WaitCheck} {rest : List WaitCheck} {pipe : NamedPipe} {status : NtStatus}
    (hfind : npfsFindPipe check.pipes name = some pipe) (hlistener : npfsHasListener pipe = false)
    (hwait : check.ioWaitCancellable deadline = some status) (htimeout : status ≠ statusTimeout)
    (hsuccess : status ≠ statusSuccess) :
    Waits name deadline (check :: rest) ⟨[name], .answered status⟩
  | again {check : WaitCheck} {rest : List WaitCheck} {pipe : NamedPipe} {run : WaitRun}
    (hfind : npfsFindPipe check.pipes name = some pipe) (hlistener : npfsHasListener pipe = false)
    (hwait : check.ioWaitCancellable deadline = some statusSuccess) (h : Waits name deadline rest run) :
    Waits name deadline (check :: rest) (run.looked name)

/-! ## Reading the request -/

variable {input bytes : List UInt8} {off w length : Nat} {name : WStr} {pipe : NamedPipe}
  {check first : WaitCheck} {rest checks : List WaitCheck} {deadline timeout now : Int64} {run : WaitRun}

theorem readInput_ok (h : off + length ≤ input.length) :
    readInput input off length = .ok ((input.drop off).take length) :=
  if_neg (Nat.not_lt.mpr h)

theorem readField_ok (h : off + w ≤ input.length) : readField input off w = .ok (Bytes.field input off w) := by
  rw [readField, readInput_ok h]
  rfl

theorem readTimeout_ok (h : waitForBufferSize ≤ input.length) (pipe : NamedPipe) :
    readTimeout input pipe = .ok (requestedTimeout input pipe) := by
  unfold waitForBufferSize at h
  rw [readTimeout, readField_ok (by omega), readField_ok (by omega), requestedTimeout]
  change (if Bytes.field input 12 1 ≠ 0 then _ else _) = _
  split <;> rfl

theorem npfsWaitForPipe_refused (h : WaitRefused input) :
    npfsWaitForPipe input checks = .ok ⟨[], .answered statusInvalidParameter⟩ := by
  unfold npfsWaitForPipe
  split
  · rfl
  · rename_i hsize
    rw [readField_ok (by unfold waitForBufferSize at hsize; omega)]
    exact if_pos (h.resolve_left hsize)

theorem npfsWaitForPipe_passed (h : ¬WaitRefused input) :
    npfsWaitForPipe input checks = waitLoop input (waitLength (givenLength input)) none checks := by
  obtain ⟨hsize, hname⟩ := not_or.mp h
  unfold npfsWaitForPipe
  rw [if_neg hsize, readField_ok (by unfold waitForBufferSize at hsize; omega)]
  exact if_neg hname

theorem waitLength_le (n : Nat) : waitLength n ≤ n :=
  (Nat.mod_le ..).trans (Nat.div_mul_le_self n 2)

theorem waitLength_even (n : Nat) : waitLength n % 2 = 0 := by
  unfold waitLength
  omega

theorem waitLength_eq_iff (n : Nat) : waitLength n = n ↔ n % 2 = 0 ∧ n < 65536 := by
  unfold waitLength
  omega

theorem ofUnits_toUnits (bytes : List UInt8) (heven : bytes.length % 2 = 0) :
    Bytes.ofUnits (Bytes.toUnits bytes) = bytes := by
  induction bytes using Bytes.toUnits.induct with
  | case1 a b rest ih =>
    have hrest : rest.length % 2 = 0 := by
      rw [length_cons, length_cons] at heven
      omega
    have hunit : Bytes.le 2 (UInt16.ofNat (Bytes.ofLe [a, b])).toNat = [a, b] := by
      have ha := a.toNat_lt
      have hb := b.toNat_lt
      have hval : (UInt16.ofNat (Bytes.ofLe [a, b])).toNat = a.toNat + 256 * b.toNat := by
        simp only [Bytes.ofLe, UInt16.toNat_ofNat']
        omega
      rw [hval]
      simp only [Bytes.le, List.cons.injEq, and_true]
      refine ⟨UInt8.toNat_inj.mp ?_, UInt8.toNat_inj.mp ?_⟩
      · rw [UInt8.toNat_ofNat']
        omega
      · rw [UInt8.toNat_ofNat']
        omega
    rw [Bytes.toUnits]
    change Bytes.le 2 _ ++ Bytes.ofUnits _ = _
    rw [hunit, ih hrest]
    rfl
  | case2 bytes hshort =>
    rcases bytes with _ | ⟨a, _ | ⟨b, rest⟩⟩
    · rfl
    · exact absurd heven Nat.one_ne_zero
    · exact absurd rfl (hshort a b rest)

def lookupName (input : List UInt8) : WStr :=
  Bytes.toUnits ((input.drop waitNameOffset).take (waitLength (givenLength input)))

/-- The call looks for the name that is given exactly when its length is that of whole units and fits
a `USHORT`. -/
theorem lookupName_given_iff (h : ¬WaitRefused input) :
    Bytes.ofUnits (lookupName input) = givenName input ↔
      givenLength input % 2 = 0 ∧ givenLength input < 65536 := by
  have hroom : givenLength input ≤ (input.drop waitNameOffset).length := by
    rw [length_drop]
    have := not_or.mp h
    omega
  have hlookup : ((input.drop waitNameOffset).take (waitLength (givenLength input))).length =
      waitLength (givenLength input) := by
    rw [length_take]
    exact Nat.min_eq_left ((waitLength_le _).trans hroom)
  rw [lookupName, ofUnits_toUnits _ (by rw [hlookup]; exact waitLength_even _), ← waitLength_eq_iff]
  constructor
  · intro heq
    have hlength := congrArg List.length heq
    rwa [hlookup, givenName, length_take, Nat.min_eq_left hroom] at hlength
  · intro heq
    rw [heq]
    rfl

/-! ## The passes of a call -/

theorem waitLoop_listening {set : Option Int64} (hread : readInput input waitNameOffset length = .ok bytes)
    (hname : Bytes.toUnits bytes = name) (hfind : npfsFindPipe check.pipes name = some pipe)
    (hlistener : npfsHasListener pipe = true) :
    waitLoop input length set (check :: rest) = .ok ⟨[name], .answered statusSuccess⟩ := by
  unfold waitLoop
  rw [hread]
  simp only [bind, Except.bind, hname, hfind, hlistener, if_true]

theorem waitLoop_waits (hread : waitNameOffset + length ≤ input.length)
    (hname : Bytes.toUnits ((input.drop waitNameOffset).take length) = name) (deadline : Int64)
    (checks : List WaitCheck) :
    ∃ run, waitLoop input length (some deadline) checks = .ok run ∧ Waits name deadline checks run := by
  induction checks with
  | nil => exact ⟨_, rfl, .out⟩
  | cons check rest ih =>
    obtain ⟨run, hrun, hwaits⟩ := ih
    unfold waitLoop
    rw [readInput_ok hread]
    simp only [bind, Except.bind, hname]
    split
    · rename_i hfind
      exact ⟨_, rfl, .missing hfind⟩
    rename_i pipe hfind
    split
    · rename_i hlistener
      exact ⟨_, rfl, .listening hfind hlistener⟩
    rename_i hlistener
    rw [Bool.not_eq_true] at hlistener
    split
    · rename_i hwait
      exact ⟨_, rfl, .parked hfind hlistener hwait⟩
    rename_i status hwait
    split
    · rename_i htimeout
      exact ⟨_, rfl, .timeout hfind hlistener (htimeout ▸ hwait)⟩
    rename_i htimeout
    split
    · rename_i hsuccess
      exact ⟨_, rfl, .broken hfind hlistener hwait htimeout hsuccess⟩
    · rename_i hsuccess
      rw [hrun]
      exact ⟨_, rfl, .again hfind hlistener (not_not.mp hsuccess ▸ hwait) hwaits⟩

theorem Waits.names (h : Waits name deadline checks run) : ∀ n ∈ run.names, n = name := by
  induction h with
  | out => exact nofun
  | missing | listening | parked | timeout | broken => exact fun n hn => mem_singleton.mp hn
  | again _ _ _ _ ih =>
    intro n hn
    rcases mem_cons.mp hn with hn | hn
    · exact hn
    · exact ih n hn

private theorem second_check {k : Nat} {found : NamedPipe} (hcheck : (first :: rest)[k]? = some check)
    (hpipe : npfsFindPipe check.pipes name = some pipe) (hlistener : npfsHasListener pipe = true)
    (hfind : npfsFindPipe first.pipes name = some found) (hno : npfsHasListener found = false) :
    k ≠ 0 := by
  rintro rfl
  obtain rfl := some.inj hcheck
  rw [hpipe] at hfind
  obtain rfl := some.inj hfind
  rw [hlistener] at hno
  exact Bool.noConfusion hno

theorem Waits.success {k : Nat} (h : Waits name deadline checks run) (hk : k < run.names.length)
    (hcheck : checks[k]? = some check) (hpipe : npfsFindPipe check.pipes name = some pipe)
    (hlistener : npfsHasListener pipe = true) : run.outcome = .answered statusSuccess := by
  induction h generalizing k with
  | out => exact absurd hk (Nat.not_lt_zero _)
  | missing hfind =>
    obtain rfl := Nat.lt_one_iff.mp hk
    obtain rfl := some.inj hcheck
    rw [hpipe] at hfind
    cases hfind
  | listening => rfl
  | parked hfind hno | timeout hfind hno | broken hfind hno =>
    exact absurd (Nat.lt_one_iff.mp hk) (second_check hcheck hpipe hlistener hfind hno)
  | again hfind hno _ _ ih =>
    cases k with
    | zero => exact absurd rfl (second_check hcheck hpipe hlistener hfind hno)
    | succ k => exact ih (Nat.lt_of_succ_lt_succ hk) hcheck

theorem Waits.timely (h : Waits name deadline checks run)
    (htimeout : run.outcome = .answered statusIoTimeout) :
    ∃ k last interruptTime, run.names.length = k + 1 ∧ checks[k]? = some last ∧
      last.ended = .elapsed interruptTime ∧ Ke.kiComputeDueTime deadline last.ke ≤ interruptTime := by
  induction h with
  | out | missing | listening | parked => cases htimeout
  | @timeout check rest pipe hfind hlistener hwait =>
    unfold WaitCheck.ioWaitCancellable at hwait
    split at hwait
    case h_2 interruptTime hended =>
      split at hwait
      · rename_i hdue
        exact ⟨0, check, interruptTime, rfl, rfl, hended, hdue⟩
      · cases hwait
    all_goals cases hwait
  | @broken check rest pipe status hfind hlistener hwait =>
    obtain rfl : status = statusIoTimeout := by injection htimeout
    unfold WaitCheck.ioWaitCancellable at hwait
    split at hwait
    case h_2 =>
      split at hwait
      · cases hwait
      · cases hwait
    all_goals cases hwait
  | again hfind hlistener hwait h ih =>
    obtain ⟨k, last, interruptTime, hlength, hlast, hdue⟩ := ih htimeout
    exact ⟨k + 1, last, interruptTime, congrArg Nat.succ hlength, hlast, hdue⟩

/-! ## The deadline -/

theorem toInt_of_nonneg (h : ¬deadline < 0) : deadline.toInt = deadline.toUInt64.toNat := by
  have hnonneg : 0 ≤ deadline.toBitVec.toInt := by
    rw [Int64.lt_iff_toInt_lt] at h
    exact Int.not_lt.mp h
  change deadline.toBitVec.toInt = deadline.toBitVec.toNat
  rw [BitVec.toInt_eq_toNat_cond] at hnonneg ⊢
  split at hnonneg
  · rename_i hsmall
    exact if_pos hsmall
  · omega

theorem le_of_due {ke : Ke.KeState} {interruptTime : UInt64} (h : ¬deadline < 0)
    (hdue : Ke.kiComputeDueTime deadline ke ≤ interruptTime) :
    deadline.toInt ≤ ke.systemTimeBase.toNat + interruptTime.toNat := by
  rw [toInt_of_nonneg h]
  unfold Ke.kiComputeDueTime at hdue
  rw [if_neg h] at hdue
  split at hdue
  · rename_i hbase
    have := UInt64.le_iff_toNat_le.mp hbase
    omega
  · rename_i hbase
    have hbase := UInt64.lt_iff_toNat_lt.mp (UInt64.not_le.mp hbase)
    have hdue := UInt64.le_iff_toNat_le.mp hdue
    rw [UInt64.toNat_sub_of_le _ _ (UInt64.le_iff_toNat_le.mpr hbase.le)] at hdue
    omega

theorem WaitCheck.now_toInt (check : WaitCheck) :
    check.keQuerySystemTime.toInt =
      check.ke.systemTimeBase.toNat + check.ke.interruptTime.toNat + check.fraction.toNat := by
  have hrange := check.inRange
  have hval : check.keQuerySystemTime.toUInt64.toNat =
      check.ke.systemTimeBase.toNat + check.ke.interruptTime.toNat + check.fraction.toNat := by
    change (check.ke.systemTimeBase + (check.ke.interruptTime + check.fraction)).toNat = _
    rw [UInt64.toNat_add, UInt64.toNat_add]
    omega
  have hpos : ¬check.keQuerySystemTime < 0 := by
    rw [Int64.lt_iff_toInt_lt]
    change ¬check.keQuerySystemTime.toBitVec.toInt < 0
    rw [BitVec.toInt_eq_toNat_cond]
    change check.keQuerySystemTime.toBitVec.toNat = _ at hval
    rw [hval]
    split <;> omega
  rw [toInt_of_nonneg hpos, hval]
  push_cast
  rfl

theorem waitDeadline_cases (timeout : Int64) (check : WaitCheck) :
    (waitDeadline timeout check.keQuerySystemTime = .error .signedOverflow ∧
        2 ^ 63 ≤ requestedTime timeout check.keQuerySystemTime) ∨
      ∃ deadline, waitDeadline timeout check.keQuerySystemTime = .ok deadline ∧ ¬deadline < 0 ∧
        deadline.toInt = requestedTime timeout check.keQuerySystemTime ∧
          requestedTime timeout check.keQuerySystemTime < 2 ^ 63 := by
  have hnow : 0 ≤ check.keQuerySystemTime.toInt := by
    rw [check.now_toInt]
    omega
  unfold waitDeadline requestedTime
  split
  · rename_i hrelative
    have hrelative : timeout.toInt < 0 := Int64.lt_iff_toInt_lt.mp hrelative
    split
    · exact .inl ⟨rfl, by omega⟩
    · have hval := Int64.toInt_ofInt_of_le (n := check.keQuerySystemTime.toInt - timeout.toInt) (by omega)
        (by omega)
      refine .inr ⟨_, rfl, ?_, hval, by omega⟩
      rw [Int64.lt_iff_toInt_lt, hval]
      change ¬_ < (0 : Int)
      omega
  · rename_i habsolute
    exact .inr ⟨_, rfl, habsolute, rfl, timeout.toInt_lt⟩

/-! ## The call -/

theorem waitLoop_first (hsize : waitForBufferSize ≤ input.length)
    (hread : waitNameOffset + length ≤ input.length)
    (hname : Bytes.toUnits ((input.drop waitNameOffset).take length) = name) (first : WaitCheck)
    (rest : List WaitCheck) :
    (npfsFindPipe first.pipes name = none ∧
        waitLoop input length none (first :: rest) = .ok ⟨[name], .answered statusObjectNameNotFound⟩) ∨
      ∃ pipe, npfsFindPipe first.pipes name = some pipe ∧
        ((npfsHasListener pipe = true ∧
            waitLoop input length none (first :: rest) = .ok ⟨[name], .answered statusSuccess⟩) ∨
          (npfsHasListener pipe = false ∧
            ((waitLoop input length none (first :: rest) = .error .signedOverflow ∧
                2 ^ 63 ≤ requestedTime (requestedTimeout input pipe) first.keQuerySystemTime) ∨
              ∃ deadline run, waitLoop input length none (first :: rest) = .ok run ∧
                Waits name deadline (first :: rest) run ∧ ¬deadline < 0 ∧
                deadline.toInt = requestedTime (requestedTimeout input pipe) first.keQuerySystemTime ∧
                requestedTime (requestedTimeout input pipe) first.keQuerySystemTime < 2 ^ 63))) := by
  cases hfind : npfsFindPipe first.pipes name with
  | none =>
    refine .inl ⟨rfl, ?_⟩
    unfold waitLoop
    rw [readInput_ok hread]
    simp only [bind, Except.bind, hname, hfind]
  | some pipe =>
    refine .inr ⟨pipe, rfl, ?_⟩
    cases hlistener : npfsHasListener pipe with
    | true =>
      exact .inl ⟨rfl, waitLoop_listening (readInput_ok hread) hname hfind hlistener⟩
    | false =>
      refine .inr ⟨rfl, ?_⟩
      -- From here the pass is that of a deadline which is set.
      have hset (d : Int64) (hd : waitDeadline (requestedTimeout input pipe) first.keQuerySystemTime = .ok d) :
          waitLoop input length none (first :: rest) = waitLoop input length (some d) (first :: rest) := by
        conv_lhs => unfold waitLoop
        conv_rhs => unfold waitLoop
        rw [readInput_ok hread]
        simp only [bind, Except.bind, hname, hfind, hlistener, readTimeout_ok hsize, hd]
      rcases waitDeadline_cases (requestedTimeout input pipe) first with
        ⟨hoverflow, hlate⟩ | ⟨d, hd, hpos, htime, hfits⟩
      · refine .inl ⟨?_, hlate⟩
        unfold waitLoop
        rw [readInput_ok hread]
        simp only [bind, Except.bind, hname, hfind, hlistener, readTimeout_ok hsize, hoverflow,
          Bool.false_eq_true, if_false]
      · obtain ⟨run, hrun, hwaits⟩ := waitLoop_waits hread hname d (first :: rest)
        exact .inr ⟨d, run, (hset d hd).trans hrun, hwaits, hpos, htime, hfits⟩

theorem npfsWaitForPipe_first (h : ¬WaitRefused input) (first : WaitCheck) (rest : List WaitCheck) :
    npfsWaitForPipe input (first :: rest) = .error .signedOverflow ∧
        (∃ pipe, npfsFindPipe first.pipes (lookupName input) = some pipe ∧
          npfsHasListener pipe = false ∧
          2 ^ 63 ≤ requestedTime (requestedTimeout input pipe) first.keQuerySystemTime) ∨
      ∃ deadline run, npfsWaitForPipe input (first :: rest) = .ok run ∧
        Waits (lookupName input) deadline (first :: rest) run ∧ run.names ≠ [] ∧
        ∀ pipe, npfsFindPipe first.pipes (lookupName input) = some pipe →
          npfsHasListener pipe = false →
            ¬deadline < 0 ∧
            deadline.toInt = requestedTime (requestedTimeout input pipe) first.keQuerySystemTime ∧
            requestedTime (requestedTimeout input pipe) first.keQuerySystemTime < 2 ^ 63 := by
  obtain ⟨hsize, hname⟩ := not_or.mp h
  rw [npfsWaitForPipe_passed h]
  have hread : waitNameOffset + waitLength (givenLength input) ≤ input.length := by
    have := waitLength_le (givenLength input)
    omega
  rcases waitLoop_first (Nat.not_lt.mp hsize) hread rfl first rest with
    ⟨hfind, hrun⟩ | ⟨pipe, hfind, ⟨hlistener, hrun⟩ | ⟨hlistener, ⟨hrun, hlate⟩ |
      ⟨deadline, run, hrun, hwaits, hpos, htime, hfits⟩⟩⟩
  · refine .inr ⟨0, _, hrun, .missing hfind, nofun, fun pipe hpipe => ?_⟩
    exact absurd (hfind.symm.trans hpipe) nofun
  · refine .inr ⟨0, _, hrun, .listening hfind hlistener, nofun, fun found hfound hno => ?_⟩
    obtain rfl := some.inj (hfind.symm.trans hfound)
    exact absurd (hlistener.symm.trans hno) nofun
  · exact .inl ⟨hrun, pipe, hfind, hlistener, hlate⟩
  · refine .inr ⟨deadline, run, hrun, hwaits, ?_, fun found hfound _ => ?_⟩
    · cases hwaits <;> exact nofun
    · obtain rfl := some.inj (hfind.symm.trans hfound)
      exact ⟨hpos, htime, hfits⟩

theorem npfsWaitForPipe_inside (input : List UInt8) (checks : List WaitCheck) :
    npfsWaitForPipe input checks ≠ .error .outOfBounds := by
  by_cases h : WaitRefused input
  · rw [npfsWaitForPipe_refused h]
    exact nofun
  cases checks with
  | nil =>
    rw [npfsWaitForPipe_passed h, waitLoop]
    exact nofun
  | cons first rest =>
    rcases npfsWaitForPipe_first h first rest with ⟨hrun, -⟩ | ⟨deadline, run, hrun, -⟩
    · rw [hrun]
      exact nofun
    · rw [hrun]
      exact nofun

theorem HonoursWait.given (h : ¬WaitRefused input)
    (hhonours : HonoursWait input (first :: rest) (npfsWaitForPipe input (first :: rest))) :
    Bytes.ofUnits (lookupName input) = givenName input := by
  rcases npfsWaitForPipe_first h first rest with ⟨hrun, -⟩ | ⟨deadline, run, hrun, hwaits, hne, -⟩
  · exact absurd hrun hhonours.deadline
  · obtain ⟨name, hname⟩ := exists_mem_of_ne_nil _ hne
    exact hwaits.names name hname ▸ hhonours.name hrun name hname

/-- The call honours its argument exactly when it is refused or the condition holds. It never reads
outside its input. -/
theorem npfsWaitForPipe_honours_iff (input : List UInt8) (first : WaitCheck) (rest : List WaitCheck) :
    (HonoursWait input (first :: rest) (npfsWaitForPipe input (first :: rest)) ↔
      WaitRefused input ∨ HonoursWhen input first) ∧
    npfsWaitForPipe input (first :: rest) ≠ .error .outOfBounds := by
  refine ⟨⟨fun hhonours => ?_, fun hwhen => ?_⟩, npfsWaitForPipe_inside _ _⟩
  · refine or_iff_not_imp_left.mpr fun h => ?_
    have hgiven := hhonours.given h
    obtain ⟨heven, hsmall⟩ := (lookupName_given_iff h).mp hgiven
    refine ⟨heven, hsmall, fun pipe hpipe hlistener => ?_⟩
    rw [← hgiven, Bytes.toUnits_ofUnits] at hpipe
    rcases npfsWaitForPipe_first h first rest with ⟨hrun, -⟩ | ⟨deadline, run, -, -, -, htime⟩
    · exact absurd hrun hhonours.deadline
    · exact (htime pipe hpipe hlistener).2.2
  by_cases h : WaitRefused input
  · rw [npfsWaitForPipe_refused h]
    refine ⟨nofun, nofun, ?_, ?_, ?_⟩
    · rintro run ⟨⟩
      exact nofun
    · rintro run first pipe name ⟨⟩ _ _ _ htimeout
      cases htimeout
    · rintro run k check pipe name ⟨⟩ _ hk
      exact absurd hk (Nat.not_lt_zero _)
  obtain ⟨heven, hsmall, hfits⟩ := hwhen.resolve_left h
  have hgiven : Bytes.ofUnits (lookupName input) = givenName input :=
    (lookupName_given_iff h).mpr ⟨heven, hsmall⟩
  have hunits : Bytes.toUnits (givenName input) = lookupName input := by
    rw [← hgiven, Bytes.toUnits_ofUnits]
  have hname (name : WStr) (hname : Bytes.ofUnits name = givenName input) : name = lookupName input := by
    rw [← hunits, ← hname, Bytes.toUnits_ofUnits]
  rw [hunits] at hfits
  rcases npfsWaitForPipe_first h first rest with
    ⟨-, pipe, hpipe, hlistener, hlate⟩ | ⟨deadline, run, hrun, hwaits, -, htime⟩
  · exact absurd (hfits pipe hpipe hlistener) (Int.not_lt.mpr hlate)
  rw [hrun]
  refine ⟨nofun, nofun, ?_, ?_, ?_⟩
  · rintro _ ⟨⟩ name hmem
    rw [hwaits.names name hmem]
    exact hgiven
  · rintro _ first' pipe name ⟨⟩ hgivenName hfirst hpipe htimeout
    obtain rfl := some.inj hfirst
    obtain rfl := hname name hgivenName
    obtain ⟨k, last, interruptTime, hlength, hlast, hended, hdue⟩ := hwaits.timely htimeout
    refine ⟨last, interruptTime, ?_, hended, ?_⟩
    · rw [hlength]
      exact hlast
    cases hlistener : npfsHasListener pipe with
    | true =>
      have hk : 0 < run.names.length := by omega
      have hanswer := hwaits.success hk rfl hpipe hlistener
      exact absurd (htimeout.symm.trans hanswer) (by decide)
    | false =>
      obtain ⟨hpos, hvalue, -⟩ := htime pipe hpipe hlistener
      rw [← hvalue]
      exact le_of_due hpos hdue
  · rintro _ k check pipe name ⟨⟩ hgivenName hk hcheck hpipe hlistener
    obtain rfl := hname name hgivenName
    exact hwaits.success hk hcheck hpipe hlistener

def sampleDispatcher : Ke.KeState where
  objects := fun _ => { type := .notificationEvent }
  threads := fun t =>
    { timerWaitBlock := { thread := t, object := .timeout t, waitKey := 0, waitType := .waitAny, arming := 0 } }
  systemTimeBase := 134116992000000000

/-- A pipe named `ax`, one instance of which listens. -/
def listeningCheck : WaitCheck where
  pipes := [{ name := [0x61, 0x78], instances := [(.listening, true)] }]
  ke := sampleDispatcher
  ended := .signalled
  inRange := by decide

/-- The same pipe while no instance listens. -/
def idleCheck : WaitCheck where
  pipes := [{ name := [0x61, 0x78] }]
  ke := sampleDispatcher
  ended := .signalled
  inRange := by decide

def requestHeader (timeout nameLength : Nat) : List UInt8 :=
  Bytes.le 8 timeout ++ Bytes.le 4 nameLength ++ [1, 0]

/-- A name of 65540 bytes, `ax` with 32768 units behind it. -/
def longRequest : List UInt8 :=
  requestHeader 0 65540 ++ ([0x61, 0, 0x78, 0] ++ List.replicate 65536 0x79)

/-- The pipe `ax` with the least timeout. -/
def earlyRequest : List UInt8 := requestHeader (2 ^ 63) 4 ++ [0x61, 0, 0x78, 0]

theorem npfsFindPipe_self (pipe : NamedPipe) (pipes : List NamedPipe) :
    npfsFindPipe (pipe :: pipes) pipe.name = some pipe :=
  find?_cons_of_pos (rtlEqualUnicodeString_self pipe.name)

/-- The long name is answered with the pipe of its first two units, and the least timeout overflows. -/
theorem npfsWaitForPipe_truncates :
    npfsWaitForPipe longRequest [listeningCheck] = .ok ⟨[[0x61, 0x78]], .answered statusSuccess⟩ ∧
      ¬HonoursWait longRequest [listeningCheck] (npfsWaitForPipe longRequest [listeningCheck]) ∧
      npfsWaitForPipe earlyRequest [idleCheck] = .error .signedOverflow := by
  have hheader : (requestHeader 0 65540).length = 14 := rfl
  have hlength : givenLength longRequest = 65540 :=
    (Bytes.field_append_left _ (by rw [hheader]; decide)).trans (by decide)
  have hsize : longRequest.length = 65554 := by
    rw [longRequest, length_append, length_append, length_replicate, hheader]
    rfl
  have hpassed : ¬WaitRefused longRequest := by
    rw [WaitRefused, hlength, hsize]
    decide
  have hunits : Bytes.toUnits [0x61, 0, 0x78, 0] = [0x61, 0x78] := rfl
  have hrun : npfsWaitForPipe longRequest [listeningCheck] =
      .ok ⟨[[0x61, 0x78]], .answered statusSuccess⟩ := by
    have htruncated : waitLength 65540 = 4 := by norm_num [waitLength]
    have hname : (longRequest.drop 14).take 4 = [0x61, 0, 0x78, 0] := by
      rw [longRequest, drop_left' hheader, take_append_of_le_length (by decide)]
      rfl
    have hroom : waitNameOffset + 4 ≤ longRequest.length := by
      simp only [hsize, waitNameOffset]
      decide
    have hfind : npfsFindPipe listeningCheck.pipes [0x61, 0x78] = _ := npfsFindPipe_self _ _
    rw [npfsWaitForPipe_passed hpassed, hlength, htruncated]
    have hread : readInput longRequest waitNameOffset 4 = .ok [0x61, 0, 0x78, 0] := by
      rw [readInput_ok hroom]
      exact congrArg Except.ok hname
    have hlistens : npfsHasListener { name := [0x61, 0x78], instances := [(.listening, true)] } = true := by
      decide
    exact waitLoop_listening hread hunits hfind hlistens
  have hoverflow : npfsWaitForPipe earlyRequest [idleCheck] = .error .signedOverflow := by
    have hname : readInput earlyRequest waitNameOffset 4 = .ok [0x61, 0, 0x78, 0] := rfl
    have hfind : npfsFindPipe idleCheck.pipes [0x61, 0x78] = _ := npfsFindPipe_self _ _
    have htimeout : readTimeout earlyRequest { name := [0x61, 0x78] } = .ok Int64.minValue := by decide
    have hdeadline : waitDeadline Int64.minValue idleCheck.keQuerySystemTime = .error .signedOverflow := by
      decide
    have hfour : waitLength (givenLength earlyRequest) = 4 := by decide
    have hearly : ¬WaitRefused earlyRequest := not_or.mpr ⟨by decide, by decide⟩
    rw [npfsWaitForPipe_passed hearly, hfour]
    unfold waitLoop
    simp only [bind, Except.bind, hname, hunits, hfind, htimeout, hdeadline]
    rfl
  refine ⟨hrun, fun h => ?_, hoverflow⟩
  obtain ⟨-, hsmall⟩ := (lookupName_given_iff hpassed).mp (h.given hpassed)
  rw [hlength] at hsmall
  exact absurd hsmall (by decide)

end Proskrnl.Npfs
