import Proskrnl.Lib.Rtl
import Proskrnl.Library.Bytes
import Proskrnl.Npfs.Pipe

/-!
# The pipes and their instances

`NtCreateNamedPipeFile` and the entry points of `fs/npfs/pipe.c` that make and free an `NPFS_PIPE`, an
`NPFS_INSTANCE` and an `NPFS_END`. What an instance holds is an `Instance`; what is added here is where
the pointers between pipes, instances and ends go, and the counts. A pointer to what was freed stops
the step (`NamespaceHalt.dangling`), as a failed assertion does.

An end is live as long as its `FILE_OBJECT` is. The pool is an input, as for an instance, and so are the
answers of `SeCaptureObjectSecurity`, `ObpAllocateObject` and `ObpCreateHandle`. None of the calls here
parks before it is through with the pipes. The counts are smaller than what the pool holds, and do not
overflow. What no code reads: the numbers of the pipes and instances, the name that a pipe was created
with, and the lists of what was allocated and freed.
-/

namespace Proskrnl.Npfs
open MessageQueue

/-! ## Data -/

/-- The bytes of a `UNICODE_STRING`; an odd `Length` is possible. -/
abbrev PipeName := List UInt8

/-- `RtlEqualUnicodeString` on names, ignoring case. -/
def equalNames (a b : PipeName) : Bool :=
  a.length == b.length && rtlEqualUnicodeString (Bytes.toUnits a) (Bytes.toUnits b)

/-- `NPFS_PIPE`. A quota of zero is replaced when the pipe is made. -/
structure Pipe where
  /-- Empty for an unnamed pipe, and once the pipe is unlinked. -/
  name : PipeName
  pipeType : Mode
  refCount : Nat := 0
  sharing : UInt32
  maxInstances : UInt32
  inQuota : UInt32
  outQuota : UInt32
  instanceList : List Nat := []
  instanceCount : Nat := 0
  /-- The name that the pipe was created with. -/
  created : PipeName
  inQuota_ne : inQuota ≠ 0
  outQuota_ne : outQuota ≠ 0

/-- `NPFS_INSTANCE` with the pipe that each of its ends points to, where `pipe` of the end is not
null. -/
structure Placed where
  body : Instance
  pipe : EndId → Nat
  endCount : Nat

inductive Resource
  | pipe (p : Nat)
  | placed (i : Nat)
  | fileEnd (i : Nat) (e : EndId)
  deriving DecidableEq

structure Namespace where
  /-- `NpfsPipeList`. -/
  pipeList : List Nat := []
  pipes : Nat → Option Pipe := fun _ => none
  instances : Nat → Option Placed := fun _ => none
  nextPipe : Nat := 0
  nextInstance : Nat := 0
  allocated : List Resource := []
  freed : List Resource := []

inductive NamespaceHalt
  /-- An assertion about an instance. -/
  | body (halt : Halt)
  /-- What a pointer points to is not there. -/
  | dangling
  /-- `NpfsFreePipe`, `NpfsDereferencePipe`, `NpfsUnlinkPipe`: `pipe->instanceCount == 0`;
  `NpfsVfsCleanup`: `end->pipe->instanceCount > 0`. -/
  | instanceCount
  /-- `NpfsFreePipe`: `pipe->refCount == 0`; `NpfsDereferencePipe`: `pipe->refCount > 0`. -/
  | refCount
  /-- `NpfsVfsClose`: `instance->endCount > 0`. -/
  | endCount
  /-- `NpfsVfsCreate`: `rootEnd->pipe != 0`; `NpfsVfsCleanup`: `end->pipe != 0`. -/
  | noPipe
  deriving DecidableEq

namespace Namespace

variable (s : Namespace)

def findPipe (p : Nat) : Except NamespaceHalt Pipe :=
  match s.pipes p with
  | some pipe => .ok pipe
  | none => .error .dangling

def findInstance (i : Nat) : Except NamespaceHalt Placed :=
  match s.instances i with
  | some x => .ok x
  | none => .error .dangling

def setPipe (p : Nat) (pipe : Pipe) : Namespace :=
  { s with pipes := Function.update s.pipes p (some pipe) }

def setInstance (i : Nat) (x : Placed) : Namespace :=
  { s with instances := Function.update s.instances i (some x) }

/-- `MiAllocatePool`. -/
def allocate (r : Resource) : Namespace := { s with allocated := r :: s.allocated }

/-- `MiFreePool`. -/
def free (r : Resource) : Namespace := { s with freed := r :: s.freed }

end Namespace

def withinInstance (x : Except Halt α) : Except NamespaceHalt α := x.mapError .body

def npfsFindNamedPipe (s : Namespace) (name : PipeName) : Option Nat :=
  s.pipeList.find? fun p =>
    match s.pipes p with
    | some pipe => equalNames pipe.name name
    | none => false

def npfsFreePipe (s : Namespace) (p : Nat) : Except NamespaceHalt Namespace := do
  let pipe ← s.findPipe p
  if pipe.instanceCount ≠ 0 then .error .instanceCount
  else if pipe.refCount ≠ 0 then .error .refCount
  else .ok ({ s with
    pipeList := s.pipeList.erase p
    pipes := Function.update s.pipes p none }.free (.pipe p))

def npfsReferencePipe (s : Namespace) (p : Nat) : Except NamespaceHalt Namespace := do
  let pipe ← s.findPipe p
  .ok (s.setPipe p { pipe with refCount := pipe.refCount + 1 })

def npfsDereferencePipe (s : Namespace) (p : Nat) : Except NamespaceHalt Namespace := do
  let pipe ← s.findPipe p
  if pipe.refCount = 0 then .error .refCount
  else
    let s := s.setPipe p { pipe with refCount := pipe.refCount - 1 }
    if pipe.refCount - 1 = 0 then
      if pipe.instanceCount ≠ 0 then .error .instanceCount else npfsFreePipe s p
    else .ok s

def npfsUnlinkPipe (s : Namespace) (p : Nat) : Except NamespaceHalt Namespace := do
  let pipe ← s.findPipe p
  if pipe.instanceCount ≠ 0 then .error .instanceCount
  else
    let s := { s.setPipe p { pipe with name := [] } with pipeList := s.pipeList.erase p }
    if pipe.refCount = 0 then npfsFreePipe s p else .ok s

def leavePipe (s : Namespace) (p i : Nat) : Except NamespaceHalt Namespace := do
  let pipe ← s.findPipe p
  if pipe.instanceCount = 0 then .error .instanceCount
  else .ok (s.setPipe p { pipe with
    instanceList := pipe.instanceList.erase i
    instanceCount := pipe.instanceCount - 1 })

/-! ## Opening -/

def genericRead : UInt32 := 0x80000000
def genericWrite : UInt32 := 0x40000000
def fileShareRead : UInt32 := 1
def fileShareWrite : UInt32 := 2
def fileOpen : UInt32 := 1
def fileCreate : UInt32 := 2
def fileOpenIf : UInt32 := 3

/-- The end that a file was opened on, with its instance; none for the device and its root. -/
abbrev FsContext := Option (Nat × EndId)

inductive OpenRoot
  | none
  /-- The root directory of the device. -/
  | directory
  /-- The device itself. -/
  | device
  | fileEnd (i : Nat) (e : EndId)
  deriving DecidableEq

/-- A call of `IopCreateFile` that comes to the device. `path` is what is left of the name: there is
none behind the device itself. -/
structure OpenCall where
  path : Option PipeName
  root : OpenRoot
  disposition : UInt32
  desiredAccess : UInt32
  synchronousIo : Bool
  pool : Nat
  /-- The answer of `ObpCreateHandle`. -/
  handle : NtStatus

/-- The search of `NpfsAttachClient` for a listening instance. -/
def listeningInstance (s : Namespace) (pipe : Pipe) : Option Nat :=
  pipe.instanceList.find? fun i =>
    match s.instances i with
    | some x => x.body.state = .listening && x.body.serverEnd
    | none => false

def attachEnd (s : Namespace) (p i : Nat) (x : Placed) (body : Instance) :
    Except NamespaceHalt Namespace := do
  let e : EndId := .client body.connection
  let s ← npfsReferencePipe s p
  .ok ((s.setInstance i ⟨body, Function.update x.pipe e p, x.endCount + 1⟩).allocate (.fileEnd i e))

/-- `NpfsAttachClient` on a pipe. -/
def npfsAttachPipe (s : Namespace) (p : Nat) (call : OpenCall) :
    Except NamespaceHalt (Namespace × NtStatus × FsContext) := do
  let pipe ← s.findPipe p
  match listeningInstance s pipe with
  | none => .ok (s, statusPipeNotAvailable, none)
  | some i => do
    let x ← s.findInstance i
    let (body, status) ← withinInstance (npfsAttachClient x.body (call.desiredAccess &&& genericRead ≠ 0)
      (call.desiredAccess &&& genericWrite ≠ 0) call.synchronousIo call.pool)
    if status ≠ statusSuccess then .ok (s, status, none)
    else do
      let s ← attachEnd s p i x body
      .ok (s, statusSuccess, some (i, .client body.connection))

/-- The arm of `NpfsVfsCreate` for an open relative to an end. -/
def openRelative (s : Namespace) (i : Nat) (e : EndId) (path : PipeName) (call : OpenCall) :
    Except NamespaceHalt (Namespace × NtStatus × FsContext) :=
  match e with
  | .client _ => .ok (s, if path ≠ [] then statusObjectNameNotFound else statusObjectTypeMismatch, none)
  | .server => do
    if path ≠ [] then .ok (s, statusObjectNameInvalid, none)
    else
      let x ← s.findInstance i
      if !(x.body.ends .server).pipe then .error .noPipe
      else npfsAttachPipe s (x.pipe .server) call

/-- The arm of `NpfsVfsCreate` for an open by name. -/
def openNamed (s : Namespace) (path : PipeName) (call : OpenCall) :
    Except NamespaceHalt (Namespace × NtStatus × FsContext) :=
  if call.disposition ≠ fileOpen ∧ call.disposition ≠ fileOpenIf ∧ call.disposition ≠ fileCreate then
    .ok (s, statusInvalidParameter, none)
  else match npfsFindNamedPipe s path with
    | none => .ok (s, statusObjectNameNotFound, none)
    | some p => npfsAttachPipe s p call

def npfsVfsCreate (s : Namespace) (call : OpenCall) :
    Except NamespaceHalt (Namespace × NtStatus × FsContext) :=
  let path := call.path.getD []
  match call.root with
  | .fileEnd i e => openRelative s i e path call
  | .device =>
    .ok (s, if path ≠ [] then statusObjectNameNotFound else statusObjectTypeMismatch, none)
  | .directory => if path = [] then .ok (s, statusObjectTypeMismatch, none) else openNamed s path call
  | .none => if path = [] then .ok (s, statusSuccess, none) else openNamed s path call

/-! ## Closing -/

/-- The client that is thrown out gives up its pipe. -/
def dereferenceOrphan (s : Namespace) (x : Placed) : Except NamespaceHalt Namespace :=
  match x.body.clientEnd with
  | some n =>
    if !(x.body.ends (.client n)).pipe then .error .dangling
    else npfsDereferencePipe s (x.pipe (.client n))
  | none => .ok s

/-- `NpfsDisconnect` on an end of the namespace. -/
def npfsDisconnectEnd (s : Namespace) (i : Nat) (e : EndId) : Except NamespaceHalt Namespace := do
  let x ← s.findInstance i
  let (body, status) ← withinInstance (npfsDisconnect x.body e)
  let s := s.setInstance i { x with body }
  if status ≠ statusSuccess then .ok s else dereferenceOrphan s x

/-- The server end leaves its pipe, and the pipe the namespace with its last instance. -/
def leaveNamespace (s : Namespace) (i : Nat) (x : Placed) : Except NamespaceHalt Namespace :=
  if !(x.body.ends .server).pipe then .error .noPipe
  else do
    let s ← leavePipe s (x.pipe .server) i
    let pipe ← s.findPipe (x.pipe .server)
    if pipe.instanceCount = 0 then npfsUnlinkPipe s (x.pipe .server) else .ok s

/-- `NpfsVfsCleanup` on an end of the namespace. -/
def npfsCleanupEnd (s : Namespace) (i : Nat) (e : EndId) : Except NamespaceHalt Namespace := do
  let x ← s.findInstance i
  let body ← withinInstance (npfsVfsCleanup x.body e)
  let s := s.setInstance i { x with body }
  if e = .server ∧ x.body.serverEnd then leaveNamespace s i x else .ok s

def freeFileEnd (s : Namespace) (i : Nat) (e : EndId) (x : Placed) : Except NamespaceHalt Namespace :=
  let s := s.free (.fileEnd i e)
  if x.endCount = 0 then .error .endCount
  else if x.endCount - 1 = 0 then
    .ok ({ s with instances := Function.update s.instances i none }.free (.placed i))
  else .ok (s.setInstance i { x with body := freeEnd x.body e, endCount := x.endCount - 1 })

/-- `NpfsVfsClose` on an end of the namespace, once it is cleaned up. -/
def releaseEnd (s : Namespace) (i : Nat) (e : EndId) : Except NamespaceHalt Namespace := do
  let x ← s.findInstance i
  if x.body.pendingOn e ≠ [] then .error (.body .pendingReads)
  else if (x.body.ends e).pipe then do
    let s ← npfsDereferencePipe s (x.pipe e)
    freeFileEnd s i e x
  else freeFileEnd s i e x

/-- `NpfsVfsClose` on an end of the namespace. -/
def npfsCloseEnd (s : Namespace) (i : Nat) (e : EndId) : Except NamespaceHalt Namespace := do
  let x ← s.findInstance i
  if x.body.has e then do
    let s ← npfsCleanupEnd s i e
    releaseEnd s i e
  else releaseEnd s i e

/-- `IopCreateFile` from its call of `NpfsVfsCreate` on: without a handle the file is cleaned up and
closed. -/
def iopCreateFile (s : Namespace) (call : OpenCall) : Except NamespaceHalt (Namespace × NtStatus) := do
  let (s, status, fsContext) ← npfsVfsCreate s call
  if !ntSuccess status then .ok (s, status)
  else if ntSuccess call.handle then .ok (s, statusSuccess)
  else match fsContext with
    | none => .ok (s, call.handle)
    | some (i, e) => do
      let s ← npfsCleanupEnd s i e
      let s ← npfsCloseEnd s i e
      .ok (s, call.handle)

/-! ## Creating -/

/-- A call of `NtCreateNamedPipeFile`. A name without units is that of an unnamed pipe. -/
structure CreateCall where
  name : PipeName
  /-- What the probes, the timeout and the lookup of the device answer. -/
  resolved : NtStatus
  desiredAccess : UInt32
  sharing : UInt32
  disposition : UInt32
  synchronousIo : Bool
  pipeType : UInt32
  readMode : UInt32
  completionMode : UInt32
  maxInstances : UInt32
  inboundQuota : UInt32
  outboundQuota : UInt32
  pool : Nat
  /-- The answer of `SeCaptureObjectSecurity`, where there is a descriptor. -/
  capture : Option NtStatus
  /-- The answer of `ObpAllocateObject`. -/
  file : NtStatus
  /-- The answer of `ObpCreateHandle`. -/
  handle : NtStatus

/-- `FILE_PIPE_TYPE_MESSAGE`, `FILE_PIPE_MESSAGE_MODE` and `FILE_PIPE_COMPLETE_OPERATION`. -/
def pipeFlag : UInt32 := 1

/-- The guards at the top of `NtCreateNamedPipeFile`. -/
def CreateCall.refused (call : CreateCall) : Option NtStatus :=
  if call.sharing = 0 ∨ call.sharing &&& ~~~(fileShareRead ||| fileShareWrite) ≠ 0 ∨
      (call.readMode &&& pipeFlag ≠ 0 ∧ call.pipeType &&& pipeFlag = 0) then
    some statusInvalidParameter
  else if call.desiredAccess = 0 then some statusAccessDenied
  else if call.disposition ≠ fileOpen ∧ call.disposition ≠ fileOpenIf ∧
      call.disposition ≠ fileCreate then
    some statusInvalidParameter
  else if call.maxInstances = 0 then some statusInvalidParameter
  else if !ntSuccess call.resolved then some call.resolved
  else none

def quotaOf (quota : UInt32) : UInt32 := if quota ≠ 0 then quota else 4096

theorem quotaOf_ne (quota : UInt32) : quotaOf quota ≠ 0 := by
  unfold quotaOf
  split
  · assumption
  · decide

def modeOf (flags : UInt32) : Mode := if flags &&& pipeFlag ≠ 0 then .message else .bytes

def CreateCall.pipe (call : CreateCall) : Pipe where
  name := call.name
  pipeType := modeOf call.pipeType
  sharing := call.sharing
  maxInstances := call.maxInstances
  inQuota := quotaOf call.inboundQuota
  outQuota := quotaOf call.outboundQuota
  created := call.name
  inQuota_ne := quotaOf_ne _
  outQuota_ne := quotaOf_ne _

/-- The instance that a call makes for a pipe, with its server end. -/
def CreateCall.instance (call : CreateCall) (pipe : Pipe) : Instance where
  queue
    | .inbound => { quota := pipe.inQuota.toNat }
    | .outbound => { quota := pipe.outQuota.toNat }
  ends
    | .server =>
      { pipe := true
        readMode := modeOf call.readMode
        completionMode := if call.completionMode &&& pipeFlag ≠ 0 then .complete else .queue
        synchronousIo := call.synchronousIo
        handle := true }
    | .client _ => {}
  pipeType := pipe.pipeType
  shareRead := pipe.sharing &&& fileShareRead ≠ 0
  shareWrite := pipe.sharing &&& fileShareWrite ≠ 0

def takePipe (s : Namespace) : Namespace := { s with nextPipe := s.nextPipe + 1 }.allocate (.pipe s.nextPipe)

/-- The number of the next instance is used up. -/
def takeInstance (s : Namespace) : Namespace :=
  { s with nextInstance := s.nextInstance + 1 }.allocate (.placed s.nextInstance)

def mintPipe (s : Namespace) (call : CreateCall) : Namespace :=
  let p := s.nextPipe
  let s := (takePipe s).setPipe p call.pipe
  { s with pipeList := if call.name = [] then s.pipeList else s.pipeList ++ [p] }

/-- `out_empty_pipe`. -/
def undoPipe (s : Namespace) (p : Nat) (created : Bool) : Except NamespaceHalt Namespace := do
  let pipe ← s.findPipe p
  if created ∧ pipe.instanceCount = 0 then npfsUnlinkPipe s p else .ok s

/-- `out_undo_instance`. -/
def undoInstance (s : Namespace) (p i : Nat) : Except NamespaceHalt Namespace := do
  let s ← leavePipe s p i
  let s ← npfsDereferencePipe s p
  .ok (({ s with instances := Function.update s.instances i none }.free (.fileEnd i .server)).free
    (.placed i))

def placeInstance (s : Namespace) (p : Nat) (pipe : Pipe) (call : CreateCall) : Namespace :=
  let i := s.nextInstance
  let s := (takeInstance s).setInstance i ⟨call.instance pipe, fun _ => p, 1⟩
  (s.setPipe p { pipe with
    refCount := pipe.refCount + 1
    instanceList := pipe.instanceList ++ [i]
    instanceCount := pipe.instanceCount + 1 }).allocate (.fileEnd i .server)

/-- The rest of `NtCreateNamedPipeFile` once there is a pipe. -/
def addInstance (s : Namespace) (p : Nat) (created : Bool) (pool : Nat) (call : CreateCall) :
    Except NamespaceHalt (Namespace × NtStatus) := do
  let pipe ← s.findPipe p
  if pool = 0 then do
    let s ← undoPipe s p created
    .ok (s, statusInsufficientResources)
  else if pool = 1 then do
    let s ← undoPipe ((takeInstance s).free (.placed s.nextInstance)) p created
    .ok (s, statusInsufficientResources)
  else
    let i := s.nextInstance
    let s := placeInstance s p pipe call
    if !ntSuccess call.file then do
      let s ← undoInstance s p i
      .ok (s, call.file)
    else if !ntSuccess call.handle then do
      let s ← npfsCloseEnd s i .server
      .ok (s, call.handle)
    else .ok (s, statusSuccess)

/-- The arm of `NtCreateNamedPipeFile` that makes a pipe. -/
def createPipe (s : Namespace) (call : CreateCall) : Except NamespaceHalt (Namespace × NtStatus) :=
  let needed := if call.name = [] then 1 else 2
  if call.pool = 0 then .ok (s, statusInsufficientResources)
  else if call.pool < needed then
    .ok ((takePipe s).free (.pipe s.nextPipe), statusInsufficientResources)
  else
    let p := s.nextPipe
    let s := mintPipe s call
    match call.capture with
    | none => addInstance s p true (call.pool - needed) call
    | some status =>
      if ntSuccess status then addInstance s p true (call.pool - needed) call
      else do
        let s ← undoPipe s p true
        .ok (s, status)

/-- The arm of `NtCreateNamedPipeFile` for a pipe that is there. -/
def openPipe (s : Namespace) (p : Nat) (call : CreateCall) :
    Except NamespaceHalt (Namespace × NtStatus) := do
  let pipe ← s.findPipe p
  if pipe.maxInstances.toNat ≤ pipe.instanceCount then .ok (s, statusInstanceNotAvailable)
  else if pipe.sharing ≠ call.sharing ∨ call.disposition = fileCreate then .ok (s, statusAccessDenied)
  else addInstance s p false call.pool call

def ntCreateNamedPipeFile (s : Namespace) (call : CreateCall) :
    Except NamespaceHalt (Namespace × NtStatus) :=
  match call.refused with
  | some status => .ok (s, status)
  | none =>
    match if call.name = [] then none else npfsFindNamedPipe s call.name with
    | some p => openPipe s p call
    | none =>
      if call.disposition = fileOpen then
        .ok (s, if call.name = [] then statusObjectTypeMismatch else statusObjectNameNotFound)
      else createPipe s call

inductive NamespaceOp
  | create (call : CreateCall)
  | openFile (call : OpenCall)
  /-- Anything else on an end of an instance. -/
  | within (i : Nat) (op : Op)

/-- A file is opened relative to one that has a handle. -/
def OpenRoot.Enabled (s : Namespace) : OpenRoot → Prop
  | .fileEnd i e => ∃ x, s.instances i = some x ∧ e ∈ x.body.openEnds ∧ (x.body.ends e).handle = true
  | _ => True

/-- A client comes to an instance by `openFile`. -/
def NamespaceOp.Enabled (s : Namespace) : NamespaceOp → Prop
  | .create _ => True
  | .openFile call => call.root.Enabled s
  | .within _ (.attach ..) => False
  | .within i op => ∃ x, s.instances i = some x ∧ op.Enabled x.body

/-- A step of one instance that leaves the pipes as they are. -/
def requestWithin (s : Namespace) (i : Nat) (op : Op) : Except NamespaceHalt Namespace := do
  let x ← s.findInstance i
  let body ← withinInstance (step op x.body)
  .ok (s.setInstance i { x with body })

def namespaceStep (op : NamespaceOp) (s : Namespace) : Except NamespaceHalt Namespace :=
  match op with
  | .create call => (ntCreateNamedPipeFile s call).map Prod.fst
  | .openFile call => (iopCreateFile s call).map Prod.fst
  | .within i (.disconnect e) => npfsDisconnectEnd s i e
  | .within i (.cleanup e) => npfsCleanupEnd s i e
  | .within i (.close e) => npfsCloseEnd s i e
  | .within i op => requestWithin s i op

def NamespaceOp.Orderly (s : Namespace) : NamespaceOp → Prop
  | .within i op => ∀ x, s.instances i = some x → op.Orderly x.body
  | _ => True

/-- The runs; `orderly` is whether all steps are. -/
inductive NamespaceRun (orderly : Prop) : Namespace → Prop
  | initial : NamespaceRun orderly {}
  | step {op : NamespaceOp} {s s' : Namespace} : NamespaceRun orderly s → op.Enabled s →
    (orderly → op.Orderly s) → namespaceStep op s = .ok s' → NamespaceRun orderly s'

end Proskrnl.Npfs
