import Proskrnl.Library.Bytes
import Proskrnl.Mm.Access

/-!
# Receiving from a socket

The receive and accept paths of `drivers/afd.c`: the capture of a scatter list, delivery from the
ring of a stream and from the queue of a datagram socket, inline or when a parked request is
completed, with the parts of `kernel/io/ioctl.c`, `kernel/io/rw.c` and `kernel/io/async.c` that
place bytes of such a request. Every copy to user memory is kept with the pointer it goes through.

The events and polls of a socket are left out, and so are the `IO_STATUS_BLOCK` and what else the
I/O manager does when a request is complete.
-/

namespace Proskrnl.Afd

open Mm

/-! ## Sockets -/

/-- Two windows of eight segments. -/
def afdRingCapacity : Nat := 2 * (8 * 1460)

/-- The most a `tot_len` holds. -/
def dgramLimit : Nat := 0xffff

def afdMsgNotOob : Nat := 0x20
def afdMsgOob : Nat := 0x40
def afdMsgPeek : Nat := 0x80
def afdRecvForceAsync : Nat := 0x2

/-- `AFD_SEG` -/
structure Seg where
  base : Nat
  length : Nat
  deriving DecidableEq

inductive SockType
  | stream
  | dgram
  deriving DecidableEq

/-- `AFD_DGRAM`, with the sender as lwIP names it. -/
structure Dgram where
  address : Nat
  hostPort : Nat
  data : List UInt8

/-- What of an `AFD_SOCKET` a receive reads or changes. -/
structure Socket where
  type : SockType
  created : Bool := true
  listening : Bool := false
  connected : Bool := false
  peerClosed : Bool := false
  shutdownRecv : Bool := false
  dead : Bool := false
  nonBlocking : Bool := false
  soError : NtStatus := 0
  hasPcb : Bool := true
  /-- The bytes of the ring from `ringHead` on. -/
  ring : List UInt8 := []
  recvedOwed : Nat := 0
  dgramQueue : List Dgram := []
  oobByte : UInt8 := 0
  oobValid : Bool := false
  optOobinline : Bool := false

/-- What the ring and a `tot_len` can hold. -/
structure Socket.Fits (sock : Socket) : Prop where
  ring : sock.ring.length ≤ afdRingCapacity
  dgrams : ∀ dgram ∈ sock.dgramQueue, dgram.data.length ≤ dgramLimit

def afdSwap16 (value : Nat) : Nat := value % 256 * 256 + value / 256 % 256

def afdFillSockaddr (address hostPort : Nat) : List UInt8 :=
  Bytes.le 2 2 ++ Bytes.le 2 (afdSwap16 hostPort) ++ Bytes.le 4 address ++ Bytes.le 8 0

inductive Pointer
  | segment (index : Nat)
  | address
  | addressLength
  /-- The output buffer of a control request, or the buffer of a read. -/
  | output
  deriving DecidableEq

/-- One copy: how many bytes it wrote from `base` on, and the machine it left. -/
structure Write where
  pointer : Pointer
  base : Nat
  count : Nat
  machine : Machine

structure Run where
  machine : Machine
  writes : List Write := []

def afdCopyToOwner (d : Run) (owner : Nat) (pointer : Pointer) (userVa : Nat)
    (source : List UInt8) : Except Halt Run := do
  let (machine, count) ← miCopyToUserRangeChecked (fun _ i => source.getD i 0) d.machine owner
    userVa source.length
  .ok ⟨machine, d.writes ++ [⟨pointer, userVa, count, machine⟩]⟩

/-- `memcpy` to user memory in the context of its process, up to the page that faults. -/
def storeThrough (p : Nat) : Nat → List UInt8 → Machine → Machine × Nat
  | _, [], m => (m, 0)
  | va, byte :: bytes, m =>
    match (m.space p).bind (miTranslateUserPage m · va) with
    | none => (m, 0)
    | some pte =>
      if pte.present && pte.writable then
        let (m, count) := storeThrough p (va + 1) bytes
          { m with phys := m.phys.store pte.frame (va % pageSize) byte }
        (m, count + 1)
      else (m, 0)

def Run.memcpy (d : Run) (p : Nat) (pointer : Pointer) (va : Nat) (source : List UInt8) : Run :=
  let (machine, count) := storeThrough p va source d.machine
  ⟨machine, d.writes ++ [⟨pointer, va, count, machine⟩]⟩

/-! ## Delivery -/

/-- `UCHAR chunk[512]` -/
def ringChunk : Nat := 512

/-- The inner loop of `AfdRingConsume`; every turn takes a byte at least. -/
def consumeSegment (owner index : Nat) (seg : Seg) :
    Nat → Nat → List UInt8 → Run → Except Halt (Run × List UInt8)
  | 0, _, rest, d => .ok (d, rest)
  | fuel + 1, segDone, rest, d =>
    if seg.length ≤ segDone ∨ rest = [] then .ok (d, rest)
    else do
      let take := min (min (seg.length - segDone) ringChunk) rest.length
      let d ← afdCopyToOwner d owner (.segment index) (uint64 (seg.base + segDone)) (rest.take take)
      consumeSegment owner index seg fuel (segDone + take) (rest.drop take) d

/-- The outer loop of `AfdRingConsume`, from the segment `index` on. -/
def consumeSegments (owner : Nat) :
    Nat → List Seg → List UInt8 → Run → Except Halt (Run × List UInt8)
  | _, [], rest, d => .ok (d, rest)
  | index, seg :: segs, rest, d =>
    if rest = [] then .ok (d, rest)
    else do
      let (d, rest) ← consumeSegment owner index seg rest.length 0 rest d
      consumeSegments owner (index + 1) segs rest d

/-- The socket after it, and how many bytes were delivered. -/
def afdRingConsume (sock : Socket) (owner : Nat) (segs : List Seg) (peek : Bool) (d : Run) :
    Except Halt (Run × Socket × Nat) := do
  let (d, rest) ← consumeSegments owner 0 segs sock.ring d
  let delivered := sock.ring.length - rest.length
  .ok (d, if peek then sock
    else { sock with ring := rest, recvedOwed := sock.recvedOwed + delivered }, delivered)

def afdFlushRecved (sock : Socket) : Socket :=
  if sock.type = .stream ∧ sock.hasPcb then { sock with recvedOwed := 0 } else sock

/-- The loop of `AfdDeliverDgram` over the segments, with what is left to deliver. -/
def deliverSegments (owner : Nat) : Nat → List Seg → List UInt8 → Run → Except Halt Run
  | _, [], _, d => .ok d
  | index, seg :: segs, rest, d =>
    if rest = [] then .ok d
    else do
      let d ← afdCopyToOwner d owner (.segment index) seg.base (rest.take seg.length)
      deliverSegments owner (index + 1) segs (rest.drop seg.length) d

/-- The `ULONG` sum of the lengths. -/
def capacityOf (segs : List Seg) : Nat := ulong (segs.map Seg.length).sum

def deliverSender (owner addrPtr addrLenPtr : Nat) (dgram : Dgram) (d : Run) :
    Except Halt Run := do
  if addrPtr = 0 then .ok d
  else
    let d ← afdCopyToOwner d owner .address addrPtr (afdFillSockaddr dgram.address dgram.hostPort)
    if addrLenPtr = 0 then .ok d
    else afdCopyToOwner d owner .addressLength addrLenPtr (Bytes.le 4 16)

structure Delivered where
  run : Run
  socket : Socket
  status : NtStatus
  information : Nat

def afdDeliverDgram (sock : Socket) (dgram : Dgram) (queue : List Dgram) (owner : Nat)
    (segs : List Seg) (addrPtr addrLenPtr : Nat) (d : Run) : Except Halt Delivered := do
  let capacity := capacityOf segs
  let deliver := min dgram.data.length capacity
  let d ← deliverSegments owner 0 segs (dgram.data.take deliver) d
  let d ← deliverSender owner addrPtr addrLenPtr dgram d
  .ok
    { run := d
      socket := { sock with dgramQueue := queue }
      status := if capacity < dgram.data.length then statusBufferOverflow else statusSuccess
      information := deliver }

/-- `AFD_REQUEST` of a receive, with the data legs of its `IOP_PENDING_REQUEST`. -/
structure ParkedRecv where
  /-- `AfdReqRead` -/
  isRead : Bool := false
  segs : List Seg := []
  addrPtr : Nat := 0
  addrLenPtr : Nat := 0
  userBuffer : Nat
  bufferLength : Nat

/-- The bytes that `IopCompletePendingRequest` places; the bounce is as long as the buffer. -/
def iopCompletePendingRequest (d : Run) (owner userBuffer bufferLength : Nat)
    (kernelBuffer : List UInt8) (information : Nat) : Except Halt Run :=
  if bufferLength ≠ 0 ∧ userBuffer ≠ 0 ∧ information ≠ 0 then
    afdCopyToOwner d owner .output userBuffer (kernelBuffer.take (min information bufferLength))
  else .ok d

def afdCompleteRecvLocked (sock : Socket) (owner : Nat) (request : ParkedRecv) (d : Run) :
    Except Halt Delivered := do
  let zeroes := List.replicate request.bufferLength 0
  let complete (x : Delivered) (kernelBuffer : List UInt8) : Except Halt Delivered := do
    let run ← iopCompletePendingRequest x.run owner request.userBuffer request.bufferLength
      kernelBuffer x.information
    .ok { x with run }
  match sock.type, sock.dgramQueue, sock.ring with
  | .dgram, dgram :: queue, _ => do
    let x ← afdDeliverDgram sock dgram queue owner request.segs request.addrPtr request.addrLenPtr d
    complete x zeroes
  -- not satisfiable, so that no one calls
  | .dgram, [], _ => .ok ⟨d, sock, statusPending, 0⟩
  | .stream, _, [] =>
    if sock.soError ≠ 0 ∧ sock.soError ≠ statusConnectionRefused then
      complete ⟨d, sock, sock.soError, 0⟩ zeroes
    else complete ⟨d, sock, statusSuccess, 0⟩ zeroes
  | .stream, _, ring =>
    if request.isRead then
      let take := min ring.length request.bufferLength
      complete
        ⟨d, afdFlushRecved { sock with ring := ring.drop take, recvedOwed := sock.recvedOwed + take },
          statusSuccess, take⟩ (ring.take take)
    else do
      let (d, sock, delivered) ← afdRingConsume sock owner request.segs false d
      complete ⟨d, afdFlushRecved sock, statusSuccess, delivered⟩ zeroes

/-- `AfdCompleteAcceptLocked`, for what minting a handle came to; an accept into a socket mints
none. -/
def afdCompleteAcceptLocked (owner userBuffer : Nat) (acceptInto : Bool)
    (handle : Except NtStatus Nat) (d : Run) : Except Halt (Run × NtStatus) :=
  if acceptInto then .ok (d, statusSuccess)
  else match handle with
    | .error status => .ok (d, status)
    | .ok handle => do
      let d ← afdCopyToOwner d owner .output userBuffer (Bytes.le 4 handle)
      .ok (d, statusSuccess)

/-! ## Verbs -/

def afdRecvSatisfiable (sock : Socket) : Bool :=
  match sock.type with
  | .dgram => !sock.dgramQueue.isEmpty
  | .stream => !sock.ring.isEmpty || sock.peerClosed || sock.soError != 0 || sock.dead

/-- What the calls of a verb to other parts of the kernel come to. -/
structure Outcomes where
  /-- The probe of the `WSABUF` array. -/
  array : NtStatus := statusSuccess
  /-- The probe of the flags word. -/
  flags : NtStatus := statusSuccess
  /-- `AfdParkRequest` -/
  park : NtStatus := statusSuccess

structure Served extends Delivered where
  /-- The request waits on the socket. -/
  parked : Bool := false

/-- An answer that wrote and changed nothing. -/
def refuse (d : Run) (sock : Socket) (status : NtStatus) : Except Halt Served :=
  .ok { run := d, socket := sock, status, information := 0 }

def park (d : Run) (sock : Socket) (status : NtStatus) : Except Halt Served :=
  if ntSuccess status then
    .ok { run := d, socket := sock, status := statusPending, information := 0, parked := true }
  else refuse d sock status

def afdCaptureSegments (o : Outcomes) (wsabufs : List Seg) : Except NtStatus (List Seg) :=
  if wsabufs.length = 0 ∨ 64 < wsabufs.length then .error statusInvalidParameter
  else if !ntSuccess o.array then .error o.array
  else .ok wsabufs

def afdRecvCommon (o : Outcomes) (sock : Socket) (owner : Nat) (segs : List Seg) (msgFlags : Nat)
    (forceAsync : Bool) (addrPtr addrLenPtr : Nat) (d : Run) : Except Halt Served :=
  if sock.shutdownRecv then refuse d sock statusPipeDisconnected
  else if sock.type = .stream ∧ !sock.connected ∧ !sock.peerClosed then
    refuse d sock statusInvalidConnection
  else if sock.nonBlocking ∧ !forceAsync ∧ !afdRecvSatisfiable sock then
    refuse d sock statusDeviceNotReady
  else match sock.type, sock.ring, sock.dgramQueue with
    | .stream, [], _ =>
      if sock.peerClosed ∨ sock.soError ≠ 0 then
        refuse d sock (if sock.soError ≠ 0 then sock.soError else statusSuccess)
      else park d sock o.park
    | .stream, _, _ => do
      let (d, sock, delivered) ← afdRingConsume sock owner segs (hasFlag msgFlags afdMsgPeek) d
      .ok { run := d, socket := afdFlushRecved sock, status := statusSuccess,
            information := delivered }
    | .dgram, _, dgram :: queue =>
      if hasFlag msgFlags afdMsgPeek then park d sock o.park
      else do
        let x ← afdDeliverDgram sock dgram queue owner segs addrPtr addrLenPtr d
        .ok { x with }
    | .dgram, _, [] => park d sock o.park

/-- `AfdRecvIoctl`, past the check of the input's length. -/
def afdRecvIoctl (o : Outcomes) (sock : Socket) (owner : Nat) (wsabufs : List Seg)
    (recvFlags msgFlags : Nat) (d : Run) : Except Halt Served :=
  if !sock.created then refuse d sock statusInvalidParameter
  else if msgFlags &&& (afdMsgOob ||| afdMsgNotOob) ≠ afdMsgNotOob then
    refuse d sock statusInvalidParameter
  else match afdCaptureSegments o wsabufs with
    | .error status => refuse d sock status
    | .ok segs =>
      afdRecvCommon o sock owner segs msgFlags (hasFlag recvFlags afdRecvForceAsync) 0 0 d

/-- The urgent byte of `AfdRecvMsg`. -/
def afdRecvUrgent (o : Outcomes) (sock : Socket) (owner : Nat) (wsabufs : List Seg) (d : Run) :
    Except Halt Served :=
  if sock.type ≠ .stream ∨ !sock.oobValid ∨ sock.optOobinline then
    refuse d sock statusInvalidParameter
  else match afdCaptureSegments o wsabufs with
    | .error status => refuse d sock status
    | .ok [] => refuse d sock statusInvalidParameter
    | .ok (seg :: _) =>
      if seg.length = 0 then refuse d sock statusBufferOverflow
      else do
        let (machine, probe) ← kiProbeRange d.machine owner seg.base 1 1 true
        let d := { d with machine }
        if !ntSuccess probe then refuse d sock probe
        else .ok { run := d.memcpy owner (.segment 0) seg.base [sock.oobByte]
                   socket := { sock with oobValid := false }
                   status := statusSuccess
                   information := 1 }

/-- `AfdRecvMsg`, past the check of the input's length. -/
def afdRecvMsg (o : Outcomes) (sock : Socket) (owner : Nat) (wsabufs : List Seg) (wsFlags : Nat)
    (forceAsync : Bool) (addrPtr addrLenPtr : Nat) (d : Run) : Except Halt Served :=
  if !sock.created then refuse d sock statusInvalidParameter
  else if !ntSuccess o.flags then refuse d sock o.flags
  else if hasFlag wsFlags 1 then afdRecvUrgent o sock owner wsabufs d
  else match afdCaptureSegments o wsabufs with
    | .error status => refuse d sock status
    | .ok segs => afdRecvCommon o sock owner segs afdMsgNotOob forceAsync addrPtr addrLenPtr d

def afdAccept (o : Outcomes) (sock : Socket) (outputLength : Nat) (acceptInto : Bool) (d : Run) :
    Except Halt Served :=
  if !sock.created ∨ !sock.listening then refuse d sock statusInvalidParameter
  else if !acceptInto ∧ outputLength < 4 then refuse d sock statusInvalidParameter
  else park d sock o.park

/-- One turn of `AfdVfsRead`, with what `NtReadFile` does with its bytes. A synchronous handle that
finds nothing waits for another turn. -/
def afdVfsRead (o : Outcomes) (sock : Socket) (p buffer length : Nat) (synchronousIo : Bool)
    (d : Run) : Except Halt Served :=
  if !sock.created then refuse d sock statusInvalidParameter
  else if sock.type ≠ .stream then refuse d sock statusInvalidDeviceRequest
  else if sock.shutdownRecv then refuse d sock statusPipeDisconnected
  else if sock.ring ≠ [] then
    let take := min sock.ring.length length
    let sock' := afdFlushRecved
      { sock with ring := sock.ring.drop take, recvedOwed := sock.recvedOwed + take }
    if take = 0 then refuse d sock' statusSuccess
    else do
      -- the turn may have waited, so the buffer is probed again
      let (machine, probe) ← kiProbeRange d.machine p buffer take 1 true
      let d := { d with machine }
      if !ntSuccess probe then refuse d sock' probe
      else .ok { run := d.memcpy p .output buffer (sock.ring.take take), socket := sock',
                 status := statusSuccess, information := take }
  else if sock.peerClosed ∨ sock.dead ∨
      (sock.soError ≠ 0 ∧ sock.soError ≠ statusConnectionRefused) then
    refuse d sock (if sock.soError ≠ 0 then sock.soError else statusSuccess)
  else if !sock.connected then refuse d sock statusInvalidConnection
  else park d sock (if synchronousIo then statusSuccess else o.park)

/-! ## Requests -/

/-- `IopDeviceControl` around a verb that leaves its output bounce as it is. -/
def iopDeviceControl (p output outputLength : Nat) (sock : Socket) (m : Machine)
    (verb : Run → Except Halt Served) : Except Halt Served := do
  let (m, probe) ← kiProbeRange m p output outputLength 1 true
  if !ntSuccess probe then refuse ⟨m, []⟩ sock probe
  else
    let x ← verb ⟨m, []⟩
    let copyOut := min x.information outputLength
    if (ntSuccess x.status ∨ x.status = statusBufferOverflow) ∧ x.status ≠ statusPending ∧
        copyOut ≠ 0 then
      .ok { x with run := x.run.memcpy p .output output (List.replicate copyOut 0) }
    else .ok x

/-- What a process asks of a socket. The length that stands behind `addrLenPtr` when it asks is
given with the pointer; no verb reads it. -/
inductive Request
  | recv (wsabufs : List Seg) (recvFlags msgFlags output : Nat) (outputLength : UInt32)
  | recvMsg (wsabufs : List Seg) (wsFlags : Nat) (forceAsync : Bool) (addrPtr addrLenPtr : Nat)
    (addrLength : Int) (output : Nat) (outputLength : UInt32)
  | accept (acceptInto : Bool) (output : Nat) (outputLength : UInt32)
  | read (synchronousIo : Bool) (buffer : Nat) (length : UInt32)

def serve (o : Outcomes) (p : Nat) (sock : Socket) (m : Machine) :
    Request → Except Halt Served
  | .recv wsabufs recvFlags msgFlags output outputLength =>
    iopDeviceControl p output outputLength.toNat sock m
      (afdRecvIoctl o sock p wsabufs recvFlags msgFlags)
  | .recvMsg wsabufs wsFlags forceAsync addrPtr addrLenPtr _ output outputLength =>
    iopDeviceControl p output outputLength.toNat sock m
      (afdRecvMsg o sock p wsabufs wsFlags forceAsync addrPtr addrLenPtr)
  | .accept acceptInto output outputLength =>
    iopDeviceControl p output outputLength.toNat sock m (afdAccept o sock outputLength.toNat acceptInto)
  | .read synchronousIo buffer length => do
    let (m, probe) ← kiProbeRange m p buffer length.toNat 1 true
    if !ntSuccess probe then refuse ⟨m, []⟩ sock probe
    else afdVfsRead o sock p buffer length.toNat synchronousIo ⟨m, []⟩

/-- A parked request is answered, by whoever finds that it can be; `handle` is what minting one for
an accepted connection comes to. -/
def finish (o : Outcomes) (p : Nat) (sock : Socket) (m : Machine) (handle : Except NtStatus Nat) :
    Request → Except Halt Run
  | .recv wsabufs _ _ output outputLength => do
    let x ← afdCompleteRecvLocked sock p
      { segs := wsabufs, userBuffer := output, bufferLength := outputLength.toNat } ⟨m, []⟩
    .ok x.run
  | .recvMsg wsabufs _ _ addrPtr addrLenPtr _ output outputLength => do
    let x ← afdCompleteRecvLocked sock p
      { segs := wsabufs, addrPtr, addrLenPtr, userBuffer := output, bufferLength := outputLength.toNat }
      ⟨m, []⟩
    .ok x.run
  | .accept acceptInto output _ => do
    let (d, _) ← afdCompleteAcceptLocked p output acceptInto handle ⟨m, []⟩
    .ok d
  | .read synchronousIo buffer length =>
    if synchronousIo then do
      let x ← afdVfsRead o sock p buffer length.toNat synchronousIo ⟨m, []⟩
      .ok x.run
    else do
      let x ← afdCompleteRecvLocked sock p
        { isRead := true, userBuffer := buffer, bufferLength := length.toNat } ⟨m, []⟩
      .ok x.run

end Proskrnl.Afd
