import Proskrnl.Abi.Status
import Proskrnl.Library.MessageQueue

/-!
# A pipe instance

`fs/npfs/pipe.c` for one `NPFS_INSTANCE` with its ends and the requests on them. Each step is what one
thread does until it returns or parks: there is one processor and the kernel is not preempted. A
thread parks on a notification event that it clears first, so its wait ends when the event is set
after that, or when the wait is broken.

`MiAllocatePool` is an input: the number of allocations that succeed in a step. So are the outcome of
`IopPreparePendingRequest`, the requests that a cancel filter matches, and the order in which threads
run. Names, security and the other instances of the pipe are left out.

What no code reads: the number of the connection, the numbers of the requests, the connection in which
a byte was written, and the trace.
-/

namespace Proskrnl.Npfs
open MessageQueue

/-! ## Data -/

/-- A byte in a queue, with the connection in which its write was issued. -/
structure Octet where
  value : UInt8
  origin : Nat
  deriving DecidableEq

/-- `FILE_PIPE_*_STATE`. -/
inductive PipeState
  | disconnected
  | listening
  | connected
  | closing
  deriving DecidableEq

/-- The queues of an instance: `inbound` is from the client to the server. -/
inductive Direction
  | inbound
  | outbound
  deriving DecidableEq

/-- `FILE_PIPE_{QUEUE,COMPLETE}_OPERATION`. -/
inductive CompletionMode
  | queue
  | complete
  deriving DecidableEq

/-- `NPFS_BUFFER`. -/
structure Buffer where
  data : List Octet
  consumed : Nat := 0
  deriving DecidableEq

def Buffer.unread (b : Buffer) : List Octet := b.data.drop b.consumed

/-- `NPFS_QUEUE`; `bytesAvailable`, `quota` and `drainSeq` are `ULONG`s. -/
structure Queue where
  bufferList : List Buffer := []
  bytesAvailable : Nat := 0
  quota : Nat
  drainSeq : Nat := 0
  deriving DecidableEq

def Queue.unread (q : Queue) : List (List Octet) := q.bufferList.map Buffer.unread

/-- An end of the instance: the server, or the client of a connection. -/
inductive EndId
  | server
  | client (connection : Nat)
  deriving DecidableEq

/-- `NpfsIncomingQueue`. -/
def EndId.incoming : EndId → Direction
  | .server => .inbound
  | .client _ => .outbound

/-- `NpfsOutgoingQueue`. -/
def EndId.outgoing : EndId → Direction
  | .server => .outbound
  | .client _ => .inbound

inductive Verb
  | read
  | transceive
  | write
  | flush
  | listen
  deriving DecidableEq

/-- Whether the request is answered with bytes. -/
def Verb.reads : Verb → Bool
  | .read | .transceive => true
  | _ => false

/-- A request on an end: its number, the end, the room for what is read, what is to be written,
whether the file is synchronous, and the connection in which it was issued. -/
structure Request where
  id : Nat
  file : EndId
  verb : Verb
  length : Nat := 0
  data : List Octet := []
  synchronous : Bool
  issued : Nat
  deriving DecidableEq

/-- `NPFS_END` with the part of its `FILE_OBJECT` that is used. `pipe` is whether it still has its
pipe, `handle` whether a handle is open. -/
structure End where
  pipe : Bool := false
  readMode : Mode := .bytes
  completionMode : CompletionMode := .queue
  synchronousIo : Bool := false
  handle : Bool := false
  deriving DecidableEq

/-- Where a thread is parked, with the locals it needs to go on. -/
inductive Wait
  /-- `NpfsAwaitRead`. -/
  | read (honourCompletionMode : Bool)
  /-- The loop for a message in `NpfsWrite`. -/
  | writeMessage
  /-- The loop for bytes in `NpfsWrite`, with what is not written yet. -/
  | writeBytes (rest : List Octet)
  /-- `NpfsFlush`. -/
  | flush (drainSeq : Nat)
  /-- `NpfsListen`. -/
  | listen
  deriving DecidableEq

structure Park where
  request : Request
  wait : Wait
  woken : Bool := false
  deriving DecidableEq

inductive KEvent
  | data (d : Direction)
  | space (d : Direction)
  | connect
  deriving DecidableEq

def Park.event (p : Park) : KEvent :=
  match p.wait with
  | .read _ => .data p.request.file.incoming
  | .writeMessage | .writeBytes _ | .flush _ => .space p.request.file.outgoing
  | .listen => .connect

structure Result where
  status : NtStatus
  information : Nat := 0
  data : List Octet := []
  deriving DecidableEq

inductive Event
  /-- A buffer is put into a queue for a request. -/
  | accepted (r : Request) (connection : Nat) (data : List Octet)
  /-- A request is answered, on an end in this read mode. -/
  | completed (r : Request) (connection : Nat) (mode : Mode) (result : Result)
  deriving DecidableEq

/-- `NPFS_INSTANCE`, its ends and the requests on them. -/
structure Instance where
  state : PipeState := .listening
  /-- `serverEnd` is not null. -/
  serverEnd : Bool := true
  clientEnd : Option Nat := none
  queue : Direction → Queue
  ends : EndId → End
  /-- The live ends; `endCount` is their number. -/
  openEnds : List EndId := [.server]
  /-- The parked reads of all ends; `pendingReadHead` of an end has those on it. -/
  pendingReads : List Request := []
  /-- `pendingListenHead`. -/
  pendingListens : List Request := []
  /-- `NPFS_PIPE.pipeType`. -/
  pipeType : Mode
  /-- `NPFS_PIPE.sharing`. -/
  shareRead : Bool := true
  shareWrite : Bool := true
  parked : List Park := []
  connection : Nat := 0
  requests : Nat := 0
  trace : List Event := []

inductive Halt
  /-- `NpfsReadDrain`: `queue->bytesAvailable >= copied`. -/
  | bytesAvailable
  /-- `NpfsListen`: `instance->serverEnd == end`. -/
  | serverEnd
  /-- `NpfsDisconnect`: no listen is parked. -/
  | pendingListens
  /-- `NpfsPeek`: `copied == capacity`. -/
  | copied
  /-- `NpfsVfsClose`: no read is parked. -/
  | pendingReads
  deriving DecidableEq

def ulong : Nat := 2 ^ 32

namespace Instance

def setQueue (s : Instance) (d : Direction) (q : Queue) : Instance :=
  { s with queue := Function.update s.queue d q }

def setEnd (s : Instance) (e : EndId) (x : End) : Instance :=
  { s with ends := Function.update s.ends e x }

def pendingOn (s : Instance) (e : EndId) : List Request :=
  s.pendingReads.filter (·.file = e)

/-- A thread returns, or `IopCompletePendingRequest`. -/
def complete (s : Instance) (r : Request) (result : Result) : Instance :=
  { s with trace := .completed r s.connection (s.ends r.file).readMode result :: s.trace }

/-- A thread parks: `NpfsWait` up to the wait. -/
def park (s : Instance) (r : Request) (wait : Wait) : Instance :=
  { s with parked := s.parked ++ [⟨r, wait, false⟩] }

def keSetEvent (s : Instance) (event : KEvent) : Instance :=
  { s with parked := s.parked.map fun p => if p.event = event then { p with woken := true } else p }

end Instance

/-! ## Reading -/

def npfsEndDisconnected (s : Instance) (e : EndId) : Bool :=
  !(s.ends e).pipe || s.state = .disconnected

def npfsReadReady (s : Instance) (e : EndId) (queuedAhead : Bool) : NtStatus :=
  if npfsEndDisconnected s e then statusPipeDisconnected
  else if s.state = .listening then statusPipeListening
  else if (s.queue e.incoming).bufferList ≠ [] then
    if queuedAhead then statusPending else statusSuccess
  else if s.state = .closing then statusPipeBroken
  else statusPending

/-- The arm of `NpfsReadDrain` for the message mode. -/
def drainMessage (length : Nat) : List Buffer → List Octet × NtStatus × List Buffer
  | [] => ([], statusSuccess, [])
  | message :: rest =>
    let copied := min (message.data.length - message.consumed) length
    let taken := message.unread.take copied
    if message.consumed + copied = message.data.length then (taken, statusSuccess, rest)
    else (taken, statusBufferOverflow, { message with consumed := message.consumed + copied } :: rest)

/-- The loop of `NpfsReadDrain` for the byte mode; `length` is what is left of the request. -/
def drainBytes : Nat → List Buffer → List Octet × List Buffer
  | _, [] => ([], [])
  | length, chunk :: rest =>
    if length = 0 then ([], chunk :: rest)
    else
      let take := min (chunk.data.length - chunk.consumed) length
      let taken := chunk.unread.take take
      if chunk.consumed + take = chunk.data.length then
        let (more, rest') := drainBytes (length - take) rest
        (taken ++ more, rest')
      else (taken, { chunk with consumed := chunk.consumed + take } :: rest)

/-- What `NpfsReadDrain` takes from a list of buffers. -/
def drainBuffers (mode : Mode) (length : Nat) (buffers : List Buffer) :
    List Octet × NtStatus × List Buffer :=
  match mode with
  | .message => drainMessage length buffers
  | .bytes =>
    let (taken, rest) := drainBytes length buffers
    (taken, statusSuccess, rest)

def npfsReadDrain (s : Instance) (e : EndId) (length : Nat) : Except Halt (Instance × Result) :=
  let queue := s.queue e.incoming
  let (taken, status, buffers) := drainBuffers (s.ends e).readMode length queue.bufferList
  if queue.bytesAvailable < taken.length then .error .bytesAvailable
  else
    let queue := { queue with
      bufferList := buffers
      bytesAvailable := queue.bytesAvailable - taken.length
      drainSeq := if buffers = [] then (queue.drainSeq + 1) % ulong else queue.drainSeq }
    .ok ((s.setQueue e.incoming queue).keSetEvent (.space e.incoming),
      ⟨status, taken.length, taken⟩)

/-- The loop of `NpfsServicePendingReads` over the reads parked on the end. -/
def servicePendingReads (e : EndId) : List Request → Instance → Except Halt Instance
  | [], s => .ok s
  | r :: rest, s =>
    let status := npfsReadReady s e false
    if status = statusPending then .ok s
    else if status = statusSuccess then do
      let (s, result) ← npfsReadDrain s e r.length
      servicePendingReads e rest
        ({ s with pendingReads := s.pendingReads.erase r }.complete r result)
    else
      servicePendingReads e rest
        ({ s with pendingReads := s.pendingReads.erase r }.complete r ⟨status, 0, []⟩)

def npfsServicePendingReads (s : Instance) (e : EndId) : Except Halt Instance :=
  servicePendingReads e (s.pendingOn e) s

/-- The client's half of `NpfsServiceInstance`. -/
def serviceClient (s : Instance) : Except Halt Instance :=
  match s.clientEnd with
  | some n => npfsServicePendingReads s (.client n)
  | none => .ok s

def npfsServiceInstance (s : Instance) : Except Halt Instance :=
  if s.serverEnd then do
    let s ← npfsServicePendingReads s .server
    serviceClient s
  else serviceClient s

def npfsWakeAll (s : Instance) : Except Halt Instance :=
  npfsServiceInstance (((((s.keSetEvent (.data .inbound)).keSetEvent (.space .inbound)).keSetEvent
    (.data .outbound)).keSetEvent (.space .outbound)).keSetEvent .connect)

/-- What `IopPreparePendingRequest` may find. -/
inductive Prepare
  | prepared
  | noPool
  | badHandle
  | badType
  | noAccess
  deriving DecidableEq

def Prepare.status : Prepare → NtStatus
  | .prepared => statusSuccess
  | .noPool => statusInsufficientResources
  | .badHandle => statusInvalidHandle
  | .badType => statusObjectTypeMismatch
  | .noAccess => statusAccessDenied

/-- The part of `NpfsAwaitRead` for an asynchronous file: the request is parked. -/
def pendRead (s : Instance) (r : Request) (prepare : Prepare) : Instance :=
  if prepare = .prepared then { s with pendingReads := s.pendingReads ++ [r] }
  else s.complete r ⟨prepare.status, 0, []⟩

def npfsAwaitRead (s : Instance) (r : Request) (honourCompletionMode : Bool) (prepare : Prepare) :
    Except Halt Instance :=
  let status := npfsReadReady s r.file (s.pendingOn r.file ≠ [])
  if status = statusSuccess then do
    let (s, result) ← npfsReadDrain s r.file r.length
    .ok (s.complete r result)
  else if status ≠ statusPending then .ok (s.complete r ⟨status, 0, []⟩)
  else if honourCompletionMode ∧ (s.ends r.file).completionMode = .complete then
    .ok (s.complete r ⟨statusPipeEmpty, 0, []⟩)
  else if !r.synchronous then .ok (pendRead s r prepare)
  else .ok (s.park r (.read honourCompletionMode))

def npfsFlush (s : Instance) (r : Request) (drainSeq : Nat) (parked : Bool) : Instance :=
  let queue := s.queue r.file.outgoing
  if parked ∧ queue.drainSeq ≠ drainSeq then s.complete r ⟨statusSuccess, 0, []⟩
  else if !(s.ends r.file).pipe then s.complete r ⟨statusPipeDisconnected, 0, []⟩
  else if s.state ≠ .connected then
    if !parked then s.complete r ⟨statusSuccess, 0, []⟩
    else if s.state = .disconnected then s.complete r ⟨statusPipeDisconnected, 0, []⟩
    else s.complete r ⟨statusPipeBroken, 0, []⟩
  else if queue.bufferList = [] then s.complete r ⟨statusSuccess, 0, []⟩
  else s.park r (.flush drainSeq)

def npfsAppendBuffer (s : Instance) (r : Request) (data : List Octet) : Except Halt Instance :=
  let d := r.file.outgoing
  let queue := s.queue d
  let queue := { queue with
    bufferList := queue.bufferList ++ [⟨data, 0⟩]
    bytesAvailable := (queue.bytesAvailable + data.length) % ulong }
  npfsServiceInstance
    ({ s.setQueue d queue with trace := .accepted r s.connection data :: s.trace }.keSetEvent (.data d))

def npfsCheckWritableState (s : Instance) (e : EndId) : NtStatus :=
  if npfsEndDisconnected s e then statusPipeDisconnected
  else match s.state with
    | .listening => statusPipeListening
    | .closing => statusPipeClosing
    | _ => statusSuccess

/-- The loop of `NpfsWrite` for a message, from its top. -/
def writeMessage (s : Instance) (r : Request) (pool : Nat) : Except Halt Instance :=
  let queue := s.queue r.file.outgoing
  let status := npfsCheckWritableState s r.file
  if status ≠ statusSuccess then .ok (s.complete r ⟨status, 0, []⟩)
  else if queue.bytesAvailable = 0 ∨ (queue.bytesAvailable + r.data.length) % ulong ≤ queue.quota then
    if pool = 0 then .ok (s.complete r ⟨statusInsufficientResources, 0, []⟩)
    else do
      let s ← npfsAppendBuffer s r r.data
      .ok (s.complete r ⟨statusSuccess, r.data.length, []⟩)
  else .ok (s.park r .writeMessage)

/-- The loop of `NpfsWrite` for bytes, from its top. -/
def writeBytes (r : Request) : Nat → List Octet → Instance → Except Halt Instance
  | pool, rest, s =>
    let queue := s.queue r.file.outgoing
    let status := npfsCheckWritableState s r.file
    let space := queue.quota - queue.bytesAvailable
    if rest = [] then .ok (s.complete r ⟨statusSuccess, r.data.length, []⟩)
    else if status ≠ statusSuccess then .ok (s.complete r ⟨status, 0, []⟩)
    else if space = 0 then .ok (s.park r (.writeBytes rest))
    else match pool with
      | 0 => .ok (s.complete r ⟨statusInsufficientResources, 0, []⟩)
      | pool + 1 => do
        let s ← npfsAppendBuffer s r (rest.take space)
        writeBytes r pool (rest.drop space) s

def npfsWrite (s : Instance) (r : Request) (pool : Nat) : Except Halt Instance :=
  let status := npfsCheckWritableState s r.file
  if status ≠ statusSuccess then .ok (s.complete r ⟨status, 0, []⟩)
  else match s.pipeType with
    | .message => writeMessage s r pool
    | .bytes => writeBytes r pool r.data s

/-! ## Control -/

/-- The loop of `NpfsListen`, from its top. -/
def listenLoop (s : Instance) (r : Request) (prepare : Prepare) : Except Halt Instance :=
  match s.state with
  | .connected => .ok (s.complete r ⟨statusPipeConnected, 0, []⟩)
  | .closing => .ok (s.complete r ⟨statusPipeClosing, 0, []⟩)
  | .listening =>
    if (s.ends r.file).completionMode = .complete then .ok (s.complete r ⟨statusPipeListening, 0, []⟩)
    else if !r.synchronous then
      if !s.serverEnd then .error .serverEnd
      else if prepare = .prepared then .ok { s with pendingListens := s.pendingListens ++ [r] }
      else .ok (s.complete r ⟨prepare.status, 0, []⟩)
    else .ok (s.park r .listen)
  | .disconnected => .ok (s.complete r ⟨statusPipeDisconnected, 0, []⟩)

def npfsListen (s : Instance) (r : Request) (prepare : Prepare) : Except Halt Instance :=
  if r.file ≠ .server then .ok (s.complete r ⟨statusIllegalFunction, 0, []⟩)
  else if s.state = .disconnected then do
    let s ← npfsWakeAll { s with state := .listening }
    listenLoop s r prepare
  else listenLoop s r prepare

def npfsFlushQueue (s : Instance) (d : Direction) : Instance :=
  s.setQueue d { s.queue d with bufferList := [], bytesAvailable := 0 }

/-- The part of `NpfsDisconnect` that takes the pipe from the client. -/
def orphanClient (s : Instance) : Instance :=
  match s.clientEnd with
  | some n => { s.setEnd (.client n) { s.ends (.client n) with pipe := false } with clientEnd := none }
  | none => s

def npfsDisconnect (s : Instance) (e : EndId) : Except Halt (Instance × NtStatus) :=
  if e ≠ .server then .ok (s, statusInvalidParameter)
  else if s.state ≠ .connected ∧ s.state ≠ .closing then .ok (s, statusPipeDisconnected)
  else if s.pendingListens ≠ [] then .error .pendingListens
  else do
    let orphaned := s.clientEnd
    let s := orphanClient (npfsFlushQueue (npfsFlushQueue s .inbound) .outbound)
    let s ← npfsWakeAll { s with state := .disconnected }
    match orphaned with
    | some n => do
      let s ← npfsServicePendingReads s (.client n)
      .ok (s, statusSuccess)
    | none => .ok (s, statusSuccess)

/-- `FILE_PIPE_PEEK_BUFFER` without its state and its count of messages. -/
structure PeekBuffer where
  readDataAvailable : Nat
  messageLength : Nat
  data : List Octet
  deriving DecidableEq

/-- `offsetof(FILE_PIPE_PEEK_BUFFER, Data)`. -/
def peekFixed : Nat := 16

/-- The loop of `NpfsPeek`; `capacity` is what is left of it. -/
def peekCopy : Nat → List Buffer → List Octet
  | _, [] => []
  | capacity, chunk :: rest =>
    if capacity = 0 then []
    else
      let take := min (chunk.data.length - chunk.consumed) capacity
      chunk.unread.take take ++ peekCopy (capacity - take) rest

/-- What `NpfsPeek` answers once the state admits it. -/
def peekQueue (s : Instance) (e : EndId) (room : Nat) : Except Halt (NtStatus × Option PeekBuffer) :=
  let queue := s.queue e.incoming
  let available := queue.bytesAvailable
  let messageLength :=
    if available ≠ 0 ∧ s.pipeType = .message then
      match queue.bufferList with
      | first :: _ => first.data.length - first.consumed
      | [] => 0
    else 0
  let capacity :=
    if available ≠ 0 ∧ s.pipeType = .message then min (min room available) messageLength
    else min room available
  let copied := peekCopy capacity queue.bufferList
  if copied.length ≠ capacity then .error .copied
  else .ok (if messageLength > copied.length then statusBufferOverflow else statusSuccess,
    some ⟨available, messageLength, copied⟩)

def npfsPeek (s : Instance) (e : EndId) (outputLength : Nat) :
    Except Halt (NtStatus × Option PeekBuffer) :=
  if outputLength < peekFixed then .ok (statusInfoLengthMismatch, none)
  else if !(s.ends e).pipe then .ok (statusPipeDisconnected, none)
  else match s.state with
    | .connected => peekQueue s e (outputLength - peekFixed)
    | .closing =>
      if (s.queue e.incoming).bufferList = [] then .ok (statusPipeBroken, none)
      else peekQueue s e (outputLength - peekFixed)
    | _ => .ok (statusInvalidPipeState, none)

def npfsTransceive (s : Instance) (r : Request) (pool : Nat) (prepare : Prepare) :
    Except Halt Instance :=
  if !(s.ends r.file).pipe then .ok (s.complete r ⟨statusPipeDisconnected, 0, []⟩)
  else if s.state ≠ .connected then .ok (s.complete r ⟨statusInvalidPipeState, 0, []⟩)
  else if (s.ends r.file).readMode ≠ .message then .ok (s.complete r ⟨statusInvalidReadMode, 0, []⟩)
  else if (s.queue r.file.incoming).bufferList ≠ [] then .ok (s.complete r ⟨statusPipeBusy, 0, []⟩)
  else if pool = 0 then .ok (s.complete r ⟨statusInsufficientResources, 0, []⟩)
  else do
    let s ← npfsAppendBuffer s r r.data
    npfsAwaitRead s r false prepare

/-- `access` is the answer of `IopReferenceFileByHandle` for a server end. -/
def npfsSetPipeInfo (s : Instance) (e : EndId) (access : NtStatus) (readMode : Mode)
    (completionMode : CompletionMode) : Instance × NtStatus :=
  if e = .server ∧ !ntSuccess access then (s, access)
  else if !(s.ends e).pipe then (s, statusPipeDisconnected)
  else if readMode = .message ∧ s.pipeType ≠ .message then (s, statusInvalidParameter)
  else (s.setEnd e { s.ends e with readMode, completionMode }, statusSuccess)

/-! ## Opening and closing -/

/-- Every request of a list is answered with this status, the oldest first. -/
def completeAll (status : NtStatus) : List Request → Instance → Instance
  | [], s => s
  | r :: rest, s => completeAll status rest (s.complete r ⟨status, 0, []⟩)

def npfsAttachClient (s : Instance) (wantsRead wantsWrite synchronousIo : Bool) (pool : Nat) :
    Except Halt (Instance × NtStatus) :=
  if s.state ≠ .listening ∨ !s.serverEnd then .ok (s, statusPipeNotAvailable)
  else if (wantsRead ∧ !s.shareRead) ∨ (wantsWrite ∧ !s.shareWrite) then .ok (s, statusAccessDenied)
  else if pool = 0 then .ok (s, statusInsufficientResources)
  else do
    let n := s.connection + 1
    let s ← npfsWakeAll { s.setEnd (.client n) { pipe := true, synchronousIo, handle := true } with
      clientEnd := some n
      openEnds := .client n :: s.openEnds
      state := .connected
      connection := n }
    .ok (completeAll statusSuccess s.pendingListens { s with pendingListens := [] }, statusSuccess)

/-- The part of `NpfsVfsCleanup` before its `NpfsWakeAll`. -/
def detach (s : Instance) (e : EndId) : Instance :=
  let s := completeAll statusCancelled (s.pendingOn e)
    { s with pendingReads := s.pendingReads.filter (·.file ≠ e) }
  let s := { s.setEnd e { s.ends e with handle := false } with
    state := if (s.ends e).pipe ∧ s.state = .connected then .closing else s.state }
  match e with
  | .server =>
    if s.serverEnd then
      completeAll statusCancelled s.pendingListens { s with pendingListens := [], serverEnd := false }
    else s
  | .client n => if s.clientEnd = some n then { s with clientEnd := none } else s

def npfsVfsCleanup (s : Instance) (e : EndId) : Except Halt Instance :=
  npfsWakeAll (detach s e)

def freeEnd (s : Instance) (e : EndId) : Instance :=
  let s := { s with openEnds := s.openEnds.erase e }
  if s.openEnds = [] then npfsFlushQueue (npfsFlushQueue s .inbound) .outbound else s

def Instance.has (s : Instance) : EndId → Bool
  | .server => s.serverEnd
  | .client n => s.clientEnd == some n

def npfsVfsClose (s : Instance) (e : EndId) : Except Halt Instance :=
  if s.has e then do
    let s ← npfsVfsCleanup s e
    if s.pendingOn e ≠ [] then .error .pendingReads else .ok (freeEnd s e)
  else if s.pendingOn e ≠ [] then .error .pendingReads
  else .ok (freeEnd s e)

/-- `NpfsCancelPending`, with the numbers of the requests that the filter matches. -/
def npfsCancelPending (s : Instance) (e : EndId) (filter : List Nat) : Instance :=
  let s := completeAll statusCancelled ((s.pendingOn e).filter (·.id ∈ filter))
    { s with pendingReads := s.pendingReads.filter fun r => !(r.file = e ∧ r.id ∈ filter) }
  if e = .server then
    completeAll statusCancelled (s.pendingListens.filter (·.id ∈ filter))
      { s with pendingListens := s.pendingListens.filter (·.id ∉ filter) }
  else s

/-! ## Steps -/

/-- Why `IoWaitCancellable` breaks a wait. -/
inductive Break
  | cancelled
  | terminating
  | userApc
  | alerted
  deriving DecidableEq

def Break.status : Break → NtStatus
  | .cancelled => statusCancelled
  | .terminating => statusThreadIsTerminating
  | .userApc => statusUserApc
  | .alerted => statusAlerted

inductive Op
  | attach (wantsRead wantsWrite synchronousIo : Bool) (pool : Nat)
  | read (e : EndId) (length : Nat) (prepare : Prepare)
  | write (e : EndId) (data : List UInt8) (pool : Nat)
  | transceive (e : EndId) (data : List UInt8) (length : Nat) (pool : Nat) (prepare : Prepare)
  | flush (e : EndId)
  | listen (e : EndId) (prepare : Prepare)
  | disconnect (e : EndId)
  | peek (e : EndId) (outputLength : Nat)
  | setPipeInfo (e : EndId) (access : NtStatus) (readMode : Mode) (completionMode : CompletionMode)
  | cancel (e : EndId) (filter : List Nat)
  | cleanup (e : EndId)
  | close (e : EndId)
  /-- The wait of a parked thread is over and it runs. -/
  | resume (p : Park) (pool : Nat) (prepare : Prepare)
  /-- The wait of a parked thread is broken. -/
  | interrupt (p : Park) (why : Break)

def Instance.request (s : Instance) (e : EndId) (verb : Verb) (length : Nat) (data : List UInt8) :
    Request where
  id := s.requests
  file := e
  verb := verb
  length := length
  data := data.map fun b => ⟨b, s.connection⟩
  synchronous := (s.ends e).synchronousIo
  issued := s.connection

def Instance.issue (s : Instance) : Instance := { s with requests := s.requests + 1 }

def resume (s : Instance) (p : Park) (pool : Nat) (prepare : Prepare) : Except Halt Instance :=
  let s := { s with parked := s.parked.erase p }
  match p.wait with
  | .read honourCompletionMode => npfsAwaitRead s p.request honourCompletionMode prepare
  | .writeMessage => writeMessage s p.request pool
  | .writeBytes rest => writeBytes p.request pool rest s
  | .flush drainSeq => .ok (npfsFlush s p.request drainSeq true)
  | .listen =>
    if s.state = .connected then .ok (s.complete p.request ⟨statusSuccess, 0, []⟩)
    else listenLoop s p.request prepare

/-- Whether a thread that runs again finds what it waited for, or a state that ends its wait, and so does
not park once more. -/
def Park.Over (s : Instance) (p : Park) : Prop :=
  let r := p.request
  let queue := s.queue r.file.outgoing
  match p.wait with
  | .read honourCompletionMode => npfsReadReady s r.file false ≠ statusPending ∨
    honourCompletionMode = true ∧ (s.ends r.file).completionMode = .complete
  | .writeMessage => npfsCheckWritableState s r.file ≠ statusSuccess ∨ queue.bytesAvailable = 0 ∨
    (queue.bytesAvailable + r.data.length) % ulong ≤ queue.quota
  | .writeBytes rest => npfsCheckWritableState s r.file ≠ statusSuccess ∨
    rest.length ≤ queue.quota - queue.bytesAvailable
  | .flush drainSeq => queue.drainSeq ≠ drainSeq ∨ (s.ends r.file).pipe = false ∨
    s.state ≠ .connected ∨ queue.bufferList = []
  | .listen => s.state ≠ .listening ∨ (s.ends r.file).completionMode = .complete

instance (s : Instance) (p : Park) : Decidable (p.Over s) := by
  unfold Park.Over
  cases p.wait <;> infer_instance

/-- The last handle is gone, and no request or thread holds the file. -/
def Closable (s : Instance) (e : EndId) : Prop :=
  e ∈ s.openEnds ∧ (∀ r ∈ s.pendingReads, r.file ≠ e) ∧ (∀ r ∈ s.pendingListens, r.file ≠ e) ∧
    ∀ p ∈ s.parked, p.request.file ≠ e

instance (s : Instance) (e : EndId) : Decidable (Closable s e) := by
  unfold Closable; infer_instance

/-- Whether a step is possible: requests are made on an open handle, and a thread runs when its event
was set, or when it was cancelled. -/
def Op.Enabled (s : Instance) : Op → Prop
  | .attach .. => True
  | .read e _ _ | .write e _ _ | .transceive e _ _ _ _ | .flush e | .listen e _ | .disconnect e
  | .peek e _ | .setPipeInfo e _ _ _ | .cancel e _ | .cleanup e =>
    e ∈ s.openEnds ∧ (s.ends e).handle = true
  | .close e => Closable s e
  | .resume p _ _ => p ∈ s.parked ∧ p.woken = true
  | .interrupt p why => p ∈ s.parked ∧ (p.woken = true → why = .cancelled)

instance (s : Instance) (op : Op) : Decidable (op.Enabled s) := by
  cases op <;> unfold Op.Enabled <;> infer_instance

/-- A thread that runs for a closed handle does not wait on. -/
def Op.Orderly (s : Instance) : Op → Prop
  | .resume p .. => (s.ends p.request.file).handle = true ∨ p.Over s
  | _ => True

instance (s : Instance) (op : Op) : Decidable (op.Orderly s) := by
  cases op <;> unfold Op.Orderly <;> infer_instance

def step (op : Op) (s : Instance) : Except Halt Instance :=
  match op with
  | .attach wantsRead wantsWrite synchronousIo pool =>
    (npfsAttachClient s wantsRead wantsWrite synchronousIo pool).map Prod.fst
  | .read e length prepare => npfsAwaitRead s.issue (s.request e .read length []) true prepare
  | .write e data pool => npfsWrite s.issue (s.request e .write 0 data) pool
  | .transceive e data length pool prepare =>
    npfsTransceive s.issue (s.request e .transceive length data) pool prepare
  | .flush e =>
    .ok (npfsFlush s.issue (s.request e .flush 0 []) (s.queue e.outgoing).drainSeq false)
  | .listen e prepare => npfsListen s.issue (s.request e .listen 0 []) prepare
  | .disconnect e => (npfsDisconnect s e).map Prod.fst
  | .peek e outputLength => (npfsPeek s e outputLength).map fun _ => s
  | .setPipeInfo e access readMode completionMode =>
    .ok (npfsSetPipeInfo s e access readMode completionMode).1
  | .cancel e filter => .ok (npfsCancelPending s e filter)
  | .cleanup e => npfsVfsCleanup s e
  | .close e => npfsVfsClose s e
  | .resume p pool prepare => resume s p pool prepare
  | .interrupt p why =>
    .ok ({ s with parked := s.parked.erase p }.complete p.request ⟨why.status, 0, []⟩)

/-- `NtCreateNamedPipeFile`: an instance with its server end. -/
structure Initial (s : Instance) : Prop where
  state : s.state = .listening
  serverEnd : s.serverEnd = true
  clientEnd : s.clientEnd = none
  queue : ∀ d, (s.queue d).bufferList = [] ∧ (s.queue d).bytesAvailable = 0 ∧
    (s.queue d).drainSeq = 0 ∧ (s.queue d).quota ≠ 0
  server : (s.ends .server).pipe = true ∧ (s.ends .server).handle = true
  clients : ∀ n, s.ends (.client n) = {}
  openEnds : s.openEnds = [.server]
  pendingReads : s.pendingReads = []
  pendingListens : s.pendingListens = []
  parked : s.parked = []
  connection : s.connection = 0
  requests : s.requests = 0
  trace : s.trace = []

inductive Run (s0 : Instance) : Instance → Prop
  | refl : Run s0 s0
  | step {op : Op} {s s' : Instance} : Run s0 s → op.Enabled s → step op s = .ok s' → Run s0 s'

end Proskrnl.Npfs
