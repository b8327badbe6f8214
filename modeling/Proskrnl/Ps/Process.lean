import Proskrnl.Abi.Status
import Proskrnl.Library.Outcome

/-!
# Processes, threads and handle tables

`kernel/ps/thread.c` (`PspCreateThreadObject`, `PspUnwindUnstartedThread`, `PspExitCurrentThread`,
`NtCreateThreadEx`, `NtTerminateThread`), `kernel/ps/process.c` (creation, `PspExitCurrentProcess`,
`PspFlagThreadTermination`, `NtTerminateProcess`, `PspDeleteProcess`), `kernel/ps/usermode.c`
(`KiProcessPendingUserSignals`) and `kernel/ob/handle.c` (the handle table, `NtDuplicateObject`,
`NtClose`). A kernel thread is preempted nowhere but where it parks, so a step is what one thread
does between two such places.
-/

namespace Proskrnl.Ps

abbrev AccessMask := UInt32

def processTerminate : AccessMask := 0x0001
def processCreateThread : AccessMask := 0x0002
def processDupHandle : AccessMask := 0x0040
def threadTerminate : AccessMask := 0x0001

def objProtectClose : UInt32 := 0x00000001
def objInherit : UInt32 := 0x00000002

def duplicateCloseSource : UInt32 := 0x00000001
def duplicateSameAttributes : UInt32 := 0x00000004

inductive Body
  | process (p : Nat)
  | thread (t : Nat)
  | other (n : Nat)
  deriving DecidableEq

inductive ObjectType
  | process
  | thread
  deriving DecidableEq

def Body.type : Body → Option ObjectType
  | .process _ => some .process
  | .thread _ => some .thread
  | .other _ => none

/-- `OBP_HANDLE_ENTRY` of an occupied slot. -/
structure HandleEntry where
  body : Body
  grantedAccess : AccessMask
  attributes : UInt32
  deriving DecidableEq

/-- `OBP_HANDLE_TABLE`. -/
structure HandleTable where
  entries : List (Option HandleEntry) := []
  inUse : Nat := 0
  deriving DecidableEq

namespace HandleTable

def capacity (table : HandleTable) : Nat := table.entries.length

end HandleTable

inductive Mode
  /-- In the kernel, before its next return to ring 3 or its first descent. -/
  | kernel
  /-- In ring 3, or on the way there with no check ahead. -/
  | user
  /-- In `PspExitCurrentThread`, still counted. -/
  | leaving (status : NtStatus)
  /-- The last one: `ObpCloseAllHandles` at an index, with the capacity it began with. -/
  | rundown (status : NtStatus) (index capacity : Nat)
  /-- `KI_THREAD_STATE_TERMINATED` -/
  | terminated
  deriving DecidableEq

/-- Off the count and off the list of its process. -/
def Mode.begunToExit : Mode → Bool
  | .kernel | .user | .leaving _ => false
  | .rundown .. | .terminated => true

/-- `ETHREAD` with its `KTHREAD`. -/
structure Thread where
  process : Nat
  mode : Mode := .kernel
  terminating : Bool := false
  terminateStatus : NtStatus := statusSuccess
  exitStatus : NtStatus := statusSuccess
  signalState : Bool := false
  impersonationToken : Option Nat := none
  deriving DecidableEq

inductive Phase
  /-- On `PspActiveProcessListHead`, before the main thread is made. -/
  | building
  | running
  /-- The creation failed: `ObpCloseAllHandles` of the creator. -/
  | unwinding (index capacity : Nat)
  | unwound
  deriving DecidableEq

/-- `EPROCESS`. The last two fields are history: how often the object was signalled, and whether an
`NtTerminateProcess` that names the process has succeeded. -/
structure Process where
  phase : Phase := .building
  activeThreadCount : Int := 0
  threadListHead : List Nat := []
  handleTable : HandleTable := {}
  exitStatus : NtStatus := statusSuccess
  signalState : Bool := false
  token : Nat := 0
  deleted : Bool := false
  signals : Nat := 0
  terminated : Bool := false
  deriving DecidableEq

@[ext] structure System where
  processes : List Process := []
  threads : List Thread := []
  deriving DecidableEq

inductive Halt
  /-- `ObpDeleteHandleTable`: `table->inUse == 0` -/
  | deletedInUse
  /-- `ObpCloseAllHandles`: `table->inUse == 0` -/
  | closedInUse
  /-- `ObpCloseAllHandles`: the table has grown, and the entries it walks are free pool. -/
  | staleEntries
  /-- `ObpCloseHandleEntryIn`: `table->inUse > 0` -/
  | closeUnused
  /-- `ObpCreateHandleInTable`: no free slot below capacity. -/
  | noFreeSlot
  /-- `PspUnwindUnstartedThread`: `activeThreadCount > 0` -/
  | unwindUncounted
  deriving DecidableEq

namespace System

def setProcess (s : System) (p : Nat) (f : Process → Process) : System :=
  { s with processes := s.processes.modify p f }

def setThread (s : System) (t : Nat) (f : Thread → Thread) : System :=
  { s with threads := s.threads.modify t f }

def setTable (s : System) (p : Nat) (table : HandleTable) : System :=
  s.setProcess p fun P => { P with handleTable := table }

def processOf (s : System) (t : Nat) : Option Nat := (s.threads[t]?).map Thread.process

def table (s : System) (p : Nat) : HandleTable :=
  ((s.processes[p]?).map Process.handleTable).getD {}

end System

/-! ## The handle table -/

def obpInitialHandleCapacity : Nat := 64

/-- The low two bits of a handle are tag bits. -/
def obpEntryInTable (table : HandleTable) (handle : Nat) : Option (Nat × HandleEntry) :=
  if handle / 4 = 0 then none
  else (table.entries[handle / 4 - 1]?.join).map fun entry => (handle / 4 - 1, entry)

/-- The table with room for one more; `none` when the pool is out. -/
def obpGrowTable (table : HandleTable) (pool : Bool) : Option HandleTable :=
  if table.entries = [] then
    if pool then some { table with entries := List.replicate obpInitialHandleCapacity none } else none
  else if table.inUse = table.capacity then
    if pool then some { table with entries := table.entries ++ List.replicate table.capacity none }
    else none
  else some table

def obpCreateHandleInTable (table : HandleTable) (entry : HandleEntry) (pool : Bool) :
    Except Halt (Option HandleTable) :=
  match obpGrowTable table pool with
  | none => .ok none
  | some table =>
    match table.entries.findIdx? Option.isNone with
    | none => .error .noFreeSlot
    | some index =>
      .ok (some { entries := table.entries.set index (some entry), inUse := table.inUse + 1 })

def obpCloseHandleEntryIn (table : HandleTable) (index : Nat) : Except Halt HandleTable :=
  if table.inUse = 0 then .error .closeUnused
  else .ok { entries := table.entries.set index none, inUse := table.inUse - 1 }

/-- One turn of the loop of `ObpCloseAllHandles`; `none` when it is over. -/
def obpCloseAllHandlesTurn (table : HandleTable) (index capacity : Nat) :
    Except Halt (HandleTable × Option Nat) :=
  if index < table.capacity ∧ 0 < table.inUse then
    if table.capacity ≠ capacity then .error .staleEntries
    else
      match table.entries[index]?.join with
      | none => .ok (table, some (index + 1))
      | some _ => (obpCloseHandleEntryIn table index).map fun table => (table, some (index + 1))
  else if table.inUse = 0 then .ok (table, none)
  else .error .closedInUse

def inheritable (entry : Option HandleEntry) : Option HandleEntry :=
  entry.filter fun e => e.attributes &&& objInherit ≠ 0

/-- Every marked entry, or those of a list, at the same index. -/
def obpInheritHandles (parent : HandleTable) (handleList : Option (List Nat)) : HandleTable :=
  let entries := parent.entries.mapIdx fun index entry =>
    match handleList with
    | none => inheritable entry
    | some handles =>
      if handles.any fun handle => handle / 4 ≠ 0 ∧ handle / 4 - 1 = index then inheritable entry
      else none
  { entries := entries, inUse := entries.countP Option.isSome }

/-- `NtCurrentProcess()` and `NtCurrentThread()`. -/
def ntCurrentProcess : Nat := 2 ^ 64 - 1
def ntCurrentThread : Nat := 2 ^ 64 - 2

def obpIsPseudoHandle (handle : Nat) : Bool := 0xfffffffa ≤ handle % 2 ^ 32

def obpReferencePseudoHandle (s : System) (t handle : Nat) : Option Body := do
  let thread ← s.threads[t]?
  let process ← s.processes[thread.process]?
  match 2 ^ 32 - handle % 2 ^ 32 with
  | 1 => some (.process thread.process)
  | 2 => some (.thread t)
  | 4 => some (.other process.token)
  | 5 => thread.impersonationToken.map .other
  | 6 => some (.other (thread.impersonationToken.getD process.token))
  | _ => none

/-- `ObReferenceObjectByHandle` for a thread of the table's process. -/
def obReferenceObjectByHandle (s : System) (t handle : Nat) (desiredAccess : AccessMask)
    (type : ObjectType) : Except NtStatus Body :=
  if obpIsPseudoHandle handle then
    match obpReferencePseudoHandle s t handle with
    | none => .error statusInvalidHandle
    | some body => if body.type = some type then .ok body else .error statusObjectTypeMismatch
  else
    match (s.processOf t).bind fun p => obpEntryInTable (s.table p) handle with
    | none => .error statusInvalidHandle
    | some (_, entry) =>
      if entry.body.type ≠ some type then .error statusObjectTypeMismatch
      else if entry.grantedAccess &&& desiredAccess ≠ desiredAccess then .error statusAccessDenied
      else .ok entry.body

def referenceProcess (s : System) (t handle : Nat) (desiredAccess : AccessMask) :
    Except NtStatus Nat :=
  if handle = ntCurrentProcess then
    match s.processOf t with
    | none => .error statusInvalidHandle
    | some p => .ok p
  else
    match obReferenceObjectByHandle s t handle desiredAccess .process with
    | .error status => .error status
    | .ok (.process p) => .ok p
    | .ok _ => .error statusObjectTypeMismatch

/-! ## Threads -/

def pspCreateThreadObject (s : System) (p : Nat) : System :=
  { s.setProcess p fun P =>
      { P with
        threadListHead := P.threadListHead ++ [s.threads.length]
        activeThreadCount := P.activeThreadCount + 1 } with
    threads := s.threads ++ [{ process := p }] }

/-- `PspUnwindUnstartedThread`, and the object is deleted with its last reference. -/
def pspUnwindUnstartedThread (s : System) (p t : Nat) : Except Halt System :=
  match s.processes[p]? with
  | none => .error .unwindUncounted
  | some P =>
    if 0 < P.activeThreadCount then
      .ok ((s.setProcess p fun P =>
          { P with
            threadListHead := P.threadListHead.erase t
            activeThreadCount := P.activeThreadCount - 1 }).setThread t
        fun T => { T with mode := .terminated })
    else .error .unwindUncounted

def pspFlagThreadTermination (exitStatus : NtStatus) (T : Thread) : Thread :=
  { T with terminating := true, terminateStatus := exitStatus }

def flagThreads (exitStatus : NtStatus) (list : List Nat) (s : System) : System :=
  { s with
    threads := s.threads.mapIdx fun t T =>
      if t ∈ list then pspFlagThreadTermination exitStatus T else T }

def System.threadList (s : System) (p : Nat) : List Nat :=
  ((s.processes[p]?).map Process.threadListHead).getD []

def pspTerminateProcessThreads (s : System) (p : Nat) (exitStatus : NtStatus) : System :=
  flagThreads exitStatus (s.threadList p) s

/-- The entry of `PspExitCurrentThread`, before the thread is taken off the count. -/
def pspExitCurrentThread (s : System) (t : Nat) (exitStatus : NtStatus) : System :=
  s.setThread t fun T => { T with mode := .leaving exitStatus }

def pspExitCurrentProcess (s : System) (t p : Nat) (exitStatus : NtStatus) : System :=
  pspExitCurrentThread (flagThreads exitStatus ((s.threadList p).filter (· ≠ t)) s) t exitStatus

/-- The count, and `PspRetireCurrentThread`; a thread that is not the last one is gone. -/
def pspRetireCurrentThread (s : System) (t : Nat) (exitStatus : NtStatus) : System :=
  match s.processOf t with
  | none => s
  | some p =>
    let remaining := (s.processes[p]?).elim (0 : Int) fun P => P.activeThreadCount - 1
    (s.setProcess p fun P =>
      { P with
        activeThreadCount := P.activeThreadCount - 1
        threadListHead := P.threadListHead.erase t }).setThread t fun T =>
      { T with
        exitStatus := exitStatus
        signalState := true
        mode := if remaining = 0 then .rundown exitStatus 0 (s.table p).capacity else .terminated }

/-- The tail of `PspExitCurrentThread` for the last thread, a turn of its loop at a time. -/
def pspRundownTurn (s : System) (t p : Nat) (exitStatus : NtStatus) (index capacity : Nat) :
    Except Halt System :=
  (obpCloseAllHandlesTurn (s.table p) index capacity).map fun (table, next) =>
    let s := s.setTable p table
    match next with
    | some index => s.setThread t fun T => { T with mode := .rundown exitStatus index capacity }
    | none =>
      (s.setProcess p fun P =>
        { P with exitStatus := exitStatus, signalState := true, signals := P.signals + 1 }).setThread t
        fun T => { T with mode := .terminated }

def kiProcessPendingUserSignals (s : System) (t : Nat) : System :=
  match s.threads[t]? with
  | none => s
  | some T =>
    if T.terminating then pspExitCurrentThread s t T.terminateStatus
    else s.setThread t fun T => { T with mode := .user }

/-! ## Services -/

/-- What the pool and the caller's memory answer in a call. -/
structure Env where
  /-- Argument checks and `PspBuildThreadFurniture`. -/
  furniture : NtStatus := statusSuccess
  /-- `KiProbeForWrite` of the out-handle. -/
  probe : NtStatus := statusSuccess
  pool : Bool := true
  deriving DecidableEq

/-- A handle in the table of the calling thread. -/
def obpCreateHandle (s : System) (t : Nat) (entry : HandleEntry) (env : Env) :
    Except Halt (System × NtStatus) :=
  if ¬ ntSuccess env.probe then .ok (s, env.probe)
  else
    match s.processOf t with
    | none => .ok (s, statusInvalidHandle)
    | some p =>
      (obpCreateHandleInTable (s.table p) entry env.pool).map fun
        | none => (s, statusInsufficientResources)
        | some table => (s.setTable p table, statusSuccess)

def pspCreateUserThread (s : System) (t p : Nat) (access : AccessMask) (attributes : UInt32)
    (env : Env) : Except Halt (System × NtStatus) :=
  if ¬ ntSuccess env.furniture then .ok (s, env.furniture)
  else do
    let made := s.threads.length
    let (s, status) ← obpCreateHandle (pspCreateThreadObject s p) t ⟨.thread made, access, attributes⟩ env
    if ntSuccess status then .ok (s, status)
    else do
      let s ← pspUnwindUnstartedThread s p made
      .ok (s, status)

def ntCreateThreadEx (s : System) (t processHandle : Nat) (access : AccessMask)
    (attributes : UInt32) (env : Env) : Except Halt (System × NtStatus) :=
  match referenceProcess s t processHandle processCreateThread with
  | .error status => .ok (s, status)
  | .ok p => pspCreateUserThread s t p access attributes env

def ntTerminateThread (s : System) (t threadHandle : Nat) (exitStatus : NtStatus) :
    System × NtStatus :=
  if threadHandle = 0 ∨ threadHandle = ntCurrentThread then
    (pspExitCurrentThread s t exitStatus, statusSuccess)
  else
    match obReferenceObjectByHandle s t threadHandle threadTerminate .thread with
    | .error status => (s, status)
    | .ok (.thread target) =>
      if target = t then (pspExitCurrentThread s t exitStatus, statusSuccess)
      else (s.setThread target (pspFlagThreadTermination exitStatus), statusSuccess)
    | .ok _ => (s, statusObjectTypeMismatch)

/-- Handle 0 is every thread of the process but the caller, which then waits for them. -/
def ntTerminateProcess (s : System) (t processHandle : Nat) (exitStatus : NtStatus) :
    System × NtStatus :=
  match s.processOf t with
  | none => (s, statusInvalidHandle)
  | some self =>
    if processHandle = 0 then
      (flagThreads exitStatus ((s.threadList self).filter (· ≠ t)) s, statusSuccess)
    else
      match referenceProcess s t processHandle processTerminate with
      | .error status => (s, status)
      | .ok p =>
        let s := s.setProcess p fun P => { P with terminated := true }
        if p = self then (pspExitCurrentProcess s t p exitStatus, statusSuccess)
        else (pspTerminateProcessThreads s p exitStatus, statusSuccess)

/-- The source of a duplication: a pseudo handle, or an entry of the source's table. -/
def duplicateSource (s : System) (t sourceProc sourceHandle : Nat) : Option (Body × UInt32) :=
  if obpIsPseudoHandle sourceHandle then
    (obpReferencePseudoHandle s t sourceHandle).map fun body => (body, 0)
  else
    (obpEntryInTable (s.table sourceProc) sourceHandle).map fun (_, entry) =>
      (entry.body, entry.attributes)

/-- `DUPLICATE_CLOSE_SOURCE`. -/
def closeSource (s : System) (sourceProc sourceHandle : Nat) (options : UInt32) :
    Except Halt System :=
  if options &&& duplicateCloseSource = 0 then .ok s
  else
    match obpEntryInTable (s.table sourceProc) sourceHandle with
    | none => .ok s
    | some (index, _) => (obpCloseHandleEntryIn (s.table sourceProc) index).map (s.setTable sourceProc)

def ntDuplicateObject (s : System) (t sourceProcess sourceHandle targetProcess : Nat)
    (wantsHandle : Bool) (granted : AccessMask) (attributes options : UInt32) (env : Env) :
    Except Halt (System × NtStatus) :=
  if wantsHandle ∧ ¬ ntSuccess env.probe then .ok (s, env.probe)
  else
    match referenceProcess s t sourceProcess processDupHandle,
        referenceProcess s t targetProcess processDupHandle with
    | .error status, _ => .ok (s, status)
    | _, .error status => .ok (s, status)
    | .ok sourceProc, .ok targetProc =>
      match duplicateSource s t sourceProc sourceHandle with
      | none => .ok (s, statusInvalidHandle)
      | some (body, sourceAttributes) =>
        if ¬ wantsHandle then
          (closeSource s sourceProc sourceHandle options).map fun s => (s, statusSuccess)
        else do
          let attributes :=
            if options &&& duplicateSameAttributes ≠ 0 then sourceAttributes else attributes
          match ← obpCreateHandleInTable (s.table targetProc) ⟨body, granted, attributes⟩ env.pool with
          | none => .ok (s, statusInsufficientResources)
          | some table =>
            let s ← closeSource (s.setTable targetProc table) sourceProc sourceHandle options
            .ok (s, statusSuccess)

def statusHandleNotClosable : NtStatus := 0xC0000235

def ntClose (s : System) (t handle : Nat) : Except Halt (System × NtStatus) :=
  if 2 ^ 64 - 6 ≤ handle then .ok (s, statusSuccess)
  else
    match s.processOf t with
    | none => .ok (s, statusInvalidHandle)
    | some p =>
      match obpEntryInTable (s.table p) handle with
      | none => .ok (s, statusInvalidHandle)
      | some (index, entry) =>
        if entry.attributes &&& objProtectClose ≠ 0 then .ok (s, statusHandleNotClosable)
        else (obpCloseHandleEntryIn (s.table p) index).map fun table =>
          (s.setTable p table, statusSuccess)

/-- `ObpDuplicateIntoTable` of the console and standard handles; one that is refused becomes 0. -/
def obpDuplicateIntoTable (parent : HandleTable) (pool : Bool) :
    List (Nat × Bool) → HandleTable → Except Halt HandleTable
  | [], child => .ok child
  | (handle, sameAttributes) :: rest, child =>
    match obpEntryInTable parent handle with
    | none => obpDuplicateIntoTable parent pool rest child
    | some (_, entry) => do
      let made ← obpCreateHandleInTable child
        { entry with attributes := if sameAttributes then entry.attributes else 0 } pool
      obpDuplicateIntoTable parent pool rest (made.getD child)

structure CreateOptions where
  inheritHandles : Bool := false
  handleList : Option (List Nat) := none
  /-- The console handle and the standard handles, and whether they keep their attributes. -/
  duplicates : List (Nat × Bool) := []
  token : Nat := 0
  deriving DecidableEq

/-- The first part of `PspCreateUserProcessImage`, to the point where the process can be opened. -/
def pspAllocateProcess (s : System) (creator : Option Nat) (options : CreateOptions) (env : Env) :
    Except Halt System := do
  let parent := ((creator.bind s.processOf).map s.table).getD {}
  let inherited := if options.inheritHandles then obpInheritHandles parent options.handleList else {}
  let table ← obpDuplicateIntoTable parent env.pool options.duplicates inherited
  .ok { s with processes := s.processes ++ [{ handleTable := table, token := options.token }] }

/-- The main thread is made; the count starts at 0. -/
def pspStartProcess (s : System) (p : Nat) : System :=
  pspCreateThreadObject
    (s.setProcess p fun P => { P with phase := .running, activeThreadCount := 0 }) p

def pspAbortProcess (s : System) (p : Nat) : System :=
  s.setProcess p fun P => { P with phase := .unwinding 0 P.handleTable.capacity }

def pspUnwindTurn (s : System) (p index capacity : Nat) : Except Halt System :=
  (obpCloseAllHandlesTurn (s.table p) index capacity).map fun (table, next) =>
    (s.setTable p table).setProcess p fun P =>
      { P with phase := next.elim .unwound fun index => .unwinding index capacity }

def pspDeleteProcess (s : System) (p : Nat) : Except Halt System :=
  if (s.table p).inUse = 0 then .ok (s.setProcess p fun P => { P with deleted := true })
  else .error .deletedInUse

/-! ## Steps -/

inductive Op
  /-- A thread in ring 3 enters the kernel. -/
  | trap (t : Nat)
  /-- A thread in ring 3 has a fault that no handler takes. -/
  | fault (t : Nat) (status : NtStatus)
  /-- A thread is at its way back to ring 3. -/
  | edge (t : Nat)
  | createThread (t processHandle : Nat) (access : AccessMask) (attributes : UInt32) (env : Env)
  /-- `PspInjectUserThread` -/
  | inject (p : Nat)
  | terminateThread (t threadHandle : Nat) (exitStatus : NtStatus)
  | terminateProcess (t processHandle : Nat) (exitStatus : NtStatus)
  /-- A job or a debug object ends its processes. -/
  | terminateMember (p : Nat) (exitStatus : NtStatus)
  /-- A handle that another service gives to its caller. -/
  | createHandle (t : Nat) (entry : HandleEntry) (env : Env)
  | duplicate (t sourceProcess sourceHandle targetProcess : Nat) (wantsHandle : Bool)
      (granted : AccessMask) (attributes options : UInt32) (env : Env)
  | close (t handle : Nat)
  /-- A thread in `PspExitCurrentThread` comes to the count. -/
  | retire (t : Nat)
  | rundown (t : Nat)
  | allocate (creator : Option Nat) (options : CreateOptions) (env : Env)
  | start (p : Nat)
  | abort (p : Nat)
  | unwind (p : Nat)
  | delete (p : Nat)
  deriving DecidableEq

/-- A handle to the process or to one of its threads is open. -/
def System.referenced (s : System) (p : Nat) : Bool :=
  s.processes.any fun P => P.handleTable.entries.any fun entry =>
    match entry.map HandleEntry.body with
    | some (.process q) => q = p
    | some (.thread t) => s.processOf t = some p
    | _ => false

def System.present (s : System) : Body → Bool
  | .process p => (s.processes[p]?).any fun P => ¬ P.deleted
  | .thread t => (s.processOf t).any fun p => (s.processes[p]?).any fun P => ¬ P.deleted
  | .other _ => true

def System.calling (s : System) (t : Nat) : Bool := (s.threads[t]?).any fun T => T.mode = .kernel

def Op.enabled (s : System) : Op → Bool
  | .trap t | .fault t _ => (s.threads[t]?).any fun T => T.mode = .user
  | .edge t | .createThread t .. | .terminateThread t .. | .terminateProcess t .. | .duplicate t ..
  | .close t _ => s.calling t
  | .createHandle t entry _ => s.calling t && s.present entry.body
  | .inject p | .terminateMember p _ => (s.processes[p]?).any fun P => ¬ P.deleted
  | .retire t => (s.threads[t]?).any fun T => (T.mode matches .leaving _)
  | .rundown t => (s.threads[t]?).any fun T => (T.mode matches .rundown ..)
  | .allocate creator .. => creator.all s.calling
  | .start p | .abort p => (s.processes[p]?).any fun P => P.phase = .building
  | .unwind p => (s.processes[p]?).any fun P => (P.phase matches .unwinding ..)
  | .delete p =>
    ((s.processes[p]?).any fun P => ¬ P.deleted ∧ (P.phase = .running ∨ P.phase = .unwound)) &&
      (s.threads.all fun T => T.process = p → T.mode = .terminated) && ¬ s.referenced p

def step (s : System) : Op → Except Halt System
  | .trap t => .ok (s.setThread t fun T => { T with mode := .kernel })
  | .fault t status => .ok ((s.processOf t).elim s fun p => pspExitCurrentProcess s t p status)
  | .edge t => .ok (kiProcessPendingUserSignals s t)
  | .createThread t processHandle access attributes env =>
    (ntCreateThreadEx s t processHandle access attributes env).map Prod.fst
  | .inject p => .ok (pspCreateThreadObject s p)
  | .terminateThread t threadHandle exitStatus => .ok (ntTerminateThread s t threadHandle exitStatus).1
  | .terminateProcess t processHandle exitStatus =>
    .ok (ntTerminateProcess s t processHandle exitStatus).1
  | .terminateMember p exitStatus => .ok (pspTerminateProcessThreads s p exitStatus)
  | .createHandle t entry env => (obpCreateHandle s t entry env).map Prod.fst
  | .duplicate t sourceProcess sourceHandle targetProcess wantsHandle granted attributes options env =>
    (ntDuplicateObject s t sourceProcess sourceHandle targetProcess wantsHandle granted attributes
      options env).map Prod.fst
  | .close t handle => (ntClose s t handle).map Prod.fst
  | .retire t =>
    match (s.threads[t]?).map Thread.mode with
    | some (.leaving status) => .ok (pspRetireCurrentThread s t status)
    | _ => .ok s
  | .rundown t =>
    match s.threads[t]? with
    | none => .ok s
    | some T =>
      match T.mode with
      | .rundown status index capacity => pspRundownTurn s t T.process status index capacity
      | _ => .ok s
  | .allocate creator options env => pspAllocateProcess s creator options env
  | .start p => .ok (pspStartProcess s p)
  | .abort p => .ok (pspAbortProcess s p)
  | .unwind p =>
    match (s.processes[p]?).map Process.phase with
    | some (.unwinding index capacity) => pspUnwindTurn s p index capacity
    | _ => .ok s
  | .delete p => pspDeleteProcess s p

inductive Run : System → Prop
  | boot : Run {}
  | step {op : Op} {s s' : System} : Run s → op.enabled s → step s op = .ok s' → Run s'

end Proskrnl.Ps
