import Proskrnl.Abi.Status
import Proskrnl.Library.ListUpdate

/-!
# Completion ports

`kernel/io/completion.c` for one `IO_COMPLETION`, with the waits of the threads that are in
`IopRemoveOnePacket`. A step is what one thread does until it returns or parks: there is one processor
and the kernel is not preempted, so the record of a parked thread stays where it is until that thread
runs again, also when its wait is over. The probes of the buffers and the references on the port are
not modelled.
-/

namespace Proskrnl.Io
open List

open ListUpdate (eq_append_of_getElem?)

/-- `IOP_COMPLETION_PACKET`. No code reads its number, the count of the packets that were posted before. -/
structure CompletionPacket where
  key : UInt64
  value : UInt64
  status : NtStatus
  information : UInt64
  number : Nat
  deriving DecidableEq

/-- The wait of a thread in `IopRemoveOnePacket`. -/
inductive RemoveWait
  | waiting
  | ended (status : NtStatus)
  deriving DecidableEq

/-- A call of `NtRemoveIoCompletion` (a count of one) or `NtRemoveIoCompletionEx`, with its
`IOP_COMPLETION_WAITER`. -/
structure RemoveCall where
  count : Nat
  /-- It waits with a timeout. -/
  timed : Bool := false
  linked : Bool := true
  served : Option CompletionPacket := none
  abandoned : Bool := false
  wait : RemoveWait := .waiting
  /-- `KTHREAD.terminating`, while the thread is in the call. -/
  terminating : Bool := false
  /-- What it returned. -/
  result : Option (NtStatus × List CompletionPacket) := none
  deriving DecidableEq

def RemoveCall.packets (c : RemoveCall) : List CompletionPacket :=
  match c.result with
  | some result => result.2
  | none => c.served.toList

/-- `KiSetEventLocked(&waiter->wake)` -/
def RemoveWait.wake : RemoveWait → RemoveWait
  | .waiting => .ended statusSuccess
  | .ended status => .ended status

/-- `IO_COMPLETION`. The calls are numbered as they come, and `waiters` has the numbers of those whose
record is linked. The last four fields are read by no code. -/
structure CompletionPort where
  /-- The signal state of the handle. -/
  queued : Bool := false
  queue : List CompletionPacket := []
  waiters : List Nat := []
  handles : Nat := 1
  dead : Bool := false
  calls : List RemoveCall := []
  posted : List CompletionPacket := []
  removed : List CompletionPacket := []
  /-- What `IopDeleteCompletion` found in the queue. -/
  freed : List CompletionPacket := []
  everClosed : Bool := false
  deriving DecidableEq

inductive PortAssertion
  /-- `IopPostCompletionPacket`: `handed != 0` -/
  | handed
  /-- `IopRemoveOnePacket`: `status != STATUS_SUCCESS` -/
  | waitStatus
  /-- `IopDeleteCompletion`: `IsListEmpty(&port->waiters)` -/
  | waiters
  deriving DecidableEq

namespace CompletionPort

def iopTakePacketLocked (s : CompletionPort) : Option (CompletionPacket × CompletionPort) :=
  match s.queue with
  | [] => none
  | packet :: rest => some (packet,
    { s with
      queue := rest
      queued := if rest.isEmpty then false else s.queued
      removed := s.removed ++ [packet] })

/-- `allocated` is whether the pool has a block for the packet. -/
def iopPostCompletionPacket (s : CompletionPort) (key value : UInt64) (status : NtStatus)
    (information : UInt64) (allocated : Bool) : Except PortAssertion CompletionPort :=
  if s.dead ∨ !allocated then .ok s
  else
    let packet := CompletionPacket.mk key value status information s.posted.length
    let s := { s with queue := s.queue ++ [packet], posted := s.posted ++ [packet] }
    match s.waiters with
    | [] => .ok { s with queued := true }
    | i :: rest =>
      match s.iopTakePacketLocked with
      | none => .error .handed
      | some (handed, s) => .ok { s with
        waiters := rest
        calls := s.calls.modify i fun c =>
          { c with linked := false, served := some handed, wait := c.wait.wake } }

/-- The loop of `NtRemoveIoCompletionEx` behind its first packet: it waits for no time, so that it
stops where the queue is empty. -/
def drain : Nat → CompletionPort → List CompletionPacket × CompletionPort
  | 0, s => ([], s)
  | n + 1, s =>
    match s.iopTakePacketLocked with
    | none => ([], s)
    | some (packet, s) =>
      let (packets, s) := drain n s
      (packet :: packets, s)

inductive RemoveTimeout
  | never
  | zero
  | later
  deriving DecidableEq

def ntRemoveIoCompletionEx (s : CompletionPort) (count : Nat) (timeout : RemoveTimeout) : CompletionPort :=
  if s.dead ∨ s.handles = 0 ∨ count = 0 then s
  else
    match s.iopTakePacketLocked with
    | some (packet, s) =>
      let (packets, s) := drain (count - 1) s
      { s with calls := s.calls ++ [{
          count
          linked := false
          wait := .ended statusSuccess
          result := some (statusSuccess, packet :: packets) }] }
    | none =>
      if timeout = .zero then
        { s with calls := s.calls ++ [{
            count
            linked := false
            wait := .ended statusTimeout
            result := some (statusTimeout, []) }] }
      else
        { s with
          calls := s.calls ++ [{ count, timed := timeout = .later }]
          waiters := s.calls.length :: s.waiters }

def expire (s : CompletionPort) (i : Nat) : CompletionPort :=
  match s.calls[i]? with
  | none => s
  | some c =>
    if c.timed ∧ c.wait = .waiting then
      { s with calls := s.calls.set i { c with wait := .ended statusTimeout } }
    else s

/-- The thread of a call is terminated; `KiAbortThreadWait` ends its wait. -/
def terminate (s : CompletionPort) (i : Nat) : CompletionPort :=
  match s.calls[i]? with
  | none => s
  | some c =>
    if c.result.isSome then s
    else
      { s with calls := s.calls.set i { c with
          terminating := true
          wait := if c.wait = .waiting then .ended statusThreadIsTerminating else c.wait } }

/-- `RemoveEntryList(&waiter.entry)`, if the record is still linked. -/
def unlinked (s : CompletionPort) (i : Nat) (c : RemoveCall) : CompletionPort :=
  if c.linked then { s with waiters := s.waiters.erase i } else s

def returned (s : CompletionPort) (i : Nat) (c : RemoveCall) (status : NtStatus)
    (packets : List CompletionPacket) : CompletionPort :=
  { s with calls := s.calls.set i { c with linked := false, result := some (status, packets) } }

/-- A thread whose wait is over runs on until it returns. -/
def run (s : CompletionPort) (i : Nat) : Except PortAssertion CompletionPort :=
  match s.calls[i]? with
  | none => .ok s
  | some c =>
    match c.result, c.wait with
    | none, .ended status =>
      let s := s.unlinked i c
      match c.served with
      | some packet =>
        let (packets, s) := drain (c.count - 1) s
        .ok (s.returned i c statusSuccess (packet :: packets))
      | none =>
        if c.abandoned then .ok (s.returned i c statusAbandonedWait0 [])
        else if status = statusSuccess then .error .waitStatus
        else .ok (s.returned i c status [])
    | _, _ => .ok s

/-- The loop of `IopCloseCompletion`. -/
def abandonAll : List Nat → List RemoveCall → List RemoveCall
  | [], calls => calls
  | i :: rest, calls =>
    abandonAll rest (calls.modify i fun c =>
      { c with linked := false, abandoned := true, wait := c.wait.wake })

/-- A handle of the port is closed, with `IopCloseCompletion`. -/
def closeHandle (s : CompletionPort) : CompletionPort :=
  if s.handles ≠ 1 then { s with handles := s.handles - 1 }
  else
    { s with
      handles := 0
      calls := abandonAll s.waiters s.calls
      waiters := []
      queued := true
      everClosed := true }

def openHandle (s : CompletionPort) : CompletionPort :=
  if s.dead then s else { s with handles := s.handles + 1 }

/-- `IopDeleteCompletion`, when nothing refers to the port: a thread in a call does. -/
def delete (s : CompletionPort) : Except PortAssertion CompletionPort :=
  if s.dead ∨ s.handles ≠ 0 ∨ s.calls.any fun c => c.result.isNone then .ok s
  else if s.waiters ≠ [] then .error .waiters
  else .ok { s with dead := true, queue := [], freed := s.queue }

end CompletionPort

inductive PortOp
  | post (key value : UInt64) (status : NtStatus) (information : UInt64) (allocated : Bool)
  | remove (count : Nat) (timeout : CompletionPort.RemoveTimeout)
  | expire (i : Nat)
  | terminate (i : Nat)
  | run (i : Nat)
  /-- A wait for the handle, which is a notification event: it takes nothing. -/
  | waitHandle
  | openHandle
  | closeHandle
  | delete
  deriving DecidableEq

def CompletionPort.step (s : CompletionPort) : PortOp → Except PortAssertion CompletionPort
  | .post key value status information allocated =>
    s.iopPostCompletionPacket key value status information allocated
  | .remove count timeout => .ok (s.ntRemoveIoCompletionEx count timeout)
  | .expire i => .ok (s.expire i)
  | .terminate i => .ok (s.terminate i)
  | .run i => s.run i
  | .waitHandle => .ok s
  | .openHandle => .ok s.openHandle
  | .closeHandle => .ok s.closeHandle
  | .delete => s.delete

/-- The states that steps within a condition reach from a new port. -/
inductive PortReaches (allowed : CompletionPort → PortOp → Prop) : CompletionPort → Prop
  | new : PortReaches allowed {}
  | step {s s' : CompletionPort} (op : PortOp) (hs : PortReaches allowed s) (hop : allowed s op)
    (h : s.step op = .ok s') : PortReaches allowed s'

/-- What holds of a port in one state. The packets leave the queue in the order in which they came, each
of them is with one call, and that call goes on in its thread. The record that is served is the one
parked last. The signal state says whether a packet is queued until the last handle is closed, and
whoever is parked then is answered with `STATUS_ABANDONED_WAIT_0`. -/
structure Delivers (s : CompletionPort) : Prop where
  order : s.posted = s.removed ++ s.queue ++ s.freed
  distinct : s.posted.Nodup
  once : s.removed.Perm (s.calls.flatMap RemoveCall.packets)
  delivered : ∀ c ∈ s.calls, c.packets ≠ [] → c.terminating = false
  answered : ∀ c ∈ s.calls, ∀ status packets, c.result = some (status, packets) →
    (status = statusSuccess ↔ packets ≠ [])
  kept : s.dead = false → s.freed = []
  idle : s.queue = [] ∨ s.waiters = []
  lifo : s.waiters.Pairwise (· > ·)
  served (i : Nat) (rest : List Nat) (key value : UInt64) (status : NtStatus) (information : UInt64)
    (hwaiters : s.waiters = i :: rest) :
    ∃ s', s.step (.post key value status information true) = .ok s' ∧ s'.waiters = rest ∧
      (s'.calls[i]?.bind RemoveCall.served) =
        some (.mk key value status information s.posted.length) ∧
      ∀ j, j ≠ i → s'.calls[j]? = s.calls[j]?
  signal : s.everClosed = false → (s.queued = true ↔ s.queue ≠ [])
  woken : ∀ c ∈ s.calls, c.result = none → c.served.isSome ∨ c.abandoned → c.wait ≠ .waiting
  closed : s.handles = 0 → ∀ c ∈ s.calls, c.result = none → c.served.isSome ∨ c.abandoned
  abandoned (i : Nat) (c : RemoveCall) (hcall : s.calls[i]? = some c) (habandoned : c.abandoned = true)
    (hresult : c.result = none) :
    ∃ s', s.step (.run i) = .ok s' ∧
      (s'.calls[i]?.bind RemoveCall.result) = some (statusAbandonedWait0, [])
  sound (op : PortOp) : ∃ s', s.step op = .ok s'

/-- No packet is handed to a thread that is terminated, and no thread is terminated that has a packet it
has not returned with. -/
def PortSafe (s : CompletionPort) : PortOp → Prop
  | .post _ _ _ _ allocated =>
    allocated = true → ∀ i rest c, s.waiters = i :: rest → s.calls[i]? = some c → c.terminating = false
  | .terminate i => ∀ c, s.calls[i]? = some c → c.result = none → c.served = none
  | _ => True

/-! ## The invariant -/

structure CallInv (c : RemoveCall) : Prop where
  linked : c.linked = true → c.result = none ∧ c.served = none ∧ c.abandoned = false
  unlinked : c.linked = false → c.result = none → c.served.isSome ∨ c.abandoned
  woken : c.result = none → c.served.isSome ∨ c.abandoned → c.wait ≠ .waiting
  status : c.result = none → c.wait = .ended statusSuccess → c.served.isSome ∨ c.abandoned
  abandoned : c.abandoned = true → c.served = none
  delivered : c.packets ≠ [] → c.terminating = false
  answered : ∀ status packets, c.result = some (status, packets) →
    (status = statusSuccess ↔ packets ≠ [])

/-- The port while a thread has taken `owed` from its queue. -/
structure PortInv (owed : List CompletionPacket) (s : CompletionPort) : Prop where
  order : s.posted = s.removed ++ s.queue ++ s.freed
  numbers : s.posted.map CompletionPacket.number = List.range s.posted.length
  once : s.removed.Perm (s.calls.flatMap RemoveCall.packets ++ owed)
  calls : ∀ c ∈ s.calls, CallInv c
  linked : ∀ i, i ∈ s.waiters ↔ ∃ c, s.calls[i]? = some c ∧ c.linked = true
  lifo : s.waiters.Pairwise (· > ·)
  idle : s.queue = [] ∨ s.waiters = []
  signal : s.everClosed = false → (s.queued = true ↔ s.queue ≠ [])
  closed : s.handles = 0 → s.waiters = [] ∧ s.everClosed = true
  kept : s.dead = false → s.freed = []
  gone : s.dead = true → s.handles = 0 ∧ s.queue = []

variable {s s' : CompletionPort} {owed packets : List CompletionPacket} {packet : CompletionPacket}
  {c c' : RemoveCall} {i : Nat}

theorem portInv_new : PortInv [] {} where
  order := rfl
  numbers := rfl
  once := .nil
  calls := nofun
  linked := fun _ => ⟨nofun, fun ⟨_, hcall, _⟩ => nomatch hcall⟩
  lifo := .nil
  idle := .inl rfl
  signal := fun _ => ⟨nofun, fun h => absurd rfl h⟩
  closed := nofun
  kept := fun _ => rfl
  gone := nofun

def CompletionPort.SameCalls (s s' : CompletionPort) : Prop :=
  s'.calls = s.calls ∧ s'.waiters = s.waiters ∧ s'.handles = s.handles ∧ s'.dead = s.dead

theorem PortInv.take (h : PortInv owed s) (htake : s.iopTakePacketLocked = some (packet, s')) :
    PortInv (owed ++ [packet]) s' ∧ s.SameCalls s' := by
  unfold CompletionPort.iopTakePacketLocked at htake
  split at htake
  · cases htake
  rename_i head rest hqueue
  obtain ⟨rfl, rfl⟩ := Prod.mk.inj (Option.some.inj htake)
  have hne : s.queue ≠ [] := by rw [hqueue]; exact cons_ne_nil _ _
  refine ⟨⟨?_, h.numbers, ?_, h.calls, h.linked, h.lifo, ?_, ?_, h.closed, h.kept, ?_⟩, rfl, rfl, rfl, rfl⟩
  · rw [h.order, hqueue]
    simp only [append_assoc, cons_append, nil_append]
  · have hperm := h.once.append_right [head]
    rwa [append_assoc] at hperm
  · exact .inr (h.idle.resolve_left hne)
  · intro hopen
    have hqueued := (h.signal hopen).mpr hne
    cases rest with
    | nil => exact ⟨nofun, fun hrest => absurd rfl hrest⟩
    | cons => exact ⟨fun _ => cons_ne_nil _ _, fun _ => hqueued⟩
  · intro hdead
    exact absurd (h.gone hdead).2 hne

theorem PortInv.drain (h : PortInv owed s) (n : Nat) (hdrain : s.drain n = (packets, s')) :
    PortInv (owed ++ packets) s' ∧ s.SameCalls s' := by
  induction n generalizing s owed packets with
  | zero =>
    obtain ⟨rfl, rfl⟩ := Prod.mk.inj hdrain
    rw [append_nil]
    exact ⟨h, rfl, rfl, rfl, rfl⟩
  | succ n ih =>
    unfold CompletionPort.drain at hdrain
    split at hdrain
    · obtain ⟨rfl, rfl⟩ := Prod.mk.inj hdrain
      rw [append_nil]
      exact ⟨h, rfl, rfl, rfl, rfl⟩
    · rename_i head s1 htake
      obtain ⟨rfl, rfl⟩ := Prod.mk.inj hdrain
      obtain ⟨h1, hcalls1, hwaiters1, hhandles1, hdead1⟩ := h.take htake
      obtain ⟨h2, hcalls2, hwaiters2, hhandles2, hdead2⟩ := ih h1 rfl
      rw [append_assoc] at h2
      exact ⟨h2, hcalls2.trans hcalls1, hwaiters2.trans hwaiters1, hhandles2.trans hhandles1,
        hdead2.trans hdead1⟩

/-! ## Changes of one call -/

theorem flatMap_set_perm (hcall : s.calls[i]? = some c) (hpackets : c'.packets = c.packets ++ owed) :
    ((s.calls.set i c').flatMap RemoveCall.packets).Perm
      (s.calls.flatMap RemoveCall.packets ++ owed) := by
  obtain ⟨l1, l2, hcalls, rfl⟩ := eq_append_of_getElem? hcall
  rw [hcalls, ListUpdate.set_append_cons, flatMap_append, flatMap_append, flatMap_cons,
    flatMap_cons, hpackets, append_assoc, append_assoc, append_assoc]
  exact .append_left _ (.append_left _ perm_append_comm)

theorem PortInv.setCall (h : PortInv owed s) (hcall : s.calls[i]? = some c) (hinv : CallInv c')
    (hpackets : c'.packets = c.packets ++ owed) (hlinked : c'.linked = true → c.linked = true) :
    PortInv [] { s with
      calls := s.calls.set i c'
      waiters := if c'.linked then s.waiters else s.waiters.erase i } := by
  have hsub : (if c'.linked then s.waiters else s.waiters.erase i).Sublist s.waiters := by
    split
    · exact Sublist.refl _
    · exact erase_sublist
  have hnodup : s.waiters.Nodup := h.lifo.imp fun hgt => Nat.ne_of_gt hgt
  have hlt : i < s.calls.length := (List.getElem?_eq_some_iff.mp hcall).1
  refine ⟨h.order, h.numbers, ?_, ?_, ?_, h.lifo.sublist hsub, ?_, h.signal, ?_, h.kept, h.gone⟩
  · rw [append_nil]
    exact h.once.trans (flatMap_set_perm hcall hpackets).symm
  · intro d hd
    rcases mem_or_eq_of_mem_set hd with hd | rfl
    · exact h.calls d hd
    · exact hinv
  · intro j
    by_cases hj : j = i
    · subst hj
      simp only [getElem?_set_self hlt, Option.some.injEq, exists_eq_left']
      cases hl : c'.linked with
      | true => exact iff_of_true ((h.linked j).mpr ⟨c, hcall, hlinked hl⟩) rfl
      | false => exact iff_of_false (fun hmem => (hnodup.mem_erase_iff.mp hmem).1 rfl) nofun
    · simp only [getElem?_set_ne (Ne.symm hj)]
      rw [← h.linked j]
      cases c'.linked with
      | true => rfl
      | false => exact mem_erase_of_ne hj
  · refine h.idle.imp_right fun hnil => ?_
    rw [hnil] at hsub
    exact hnil ▸ sublist_nil.mp hsub
  · intro hzero
    obtain ⟨hnil, hclosed⟩ := h.closed hzero
    rw [hnil] at hsub
    exact ⟨hnil ▸ sublist_nil.mp hsub, hclosed⟩

theorem PortInv.appendCall (h : PortInv owed s) (hinv : CallInv c) (hpackets : c.packets = owed)
    (hlinked : c.linked = false) : PortInv [] { s with calls := s.calls ++ [c] } := by
  refine ⟨h.order, h.numbers, ?_, ?_, ?_, h.lifo, h.idle, h.signal, h.closed, h.kept, h.gone⟩
  · rw [flatMap_append, flatMap_cons, flatMap_nil, hpackets, append_nil, append_nil]
    exact h.once
  · intro d hd
    rcases mem_append.mp hd with hd | hd
    · exact h.calls d hd
    · obtain rfl := mem_singleton.mp hd
      exact hinv
  · intro j
    rw [h.linked j]
    refine exists_congr fun d => and_congr_left fun hd => ?_
    rw [getElem?_append]
    split
    · rfl
    · rename_i hge
      rw [getElem?_eq_none (Nat.not_lt.mp hge)]
      refine iff_of_false nofun fun hlast => ?_
      obtain rfl := mem_singleton.mp (mem_of_getElem? hlast)
      exact absurd (hd.symm.trans hlinked) nofun

theorem PortInv.park (h : PortInv [] s) (hempty : s.queue = []) (hopen : s.handles ≠ 0) (count : Nat)
    (timed : Bool) :
    PortInv [] { s with
      calls := s.calls ++ [{ count, timed }]
      waiters := s.calls.length :: s.waiters } := by
  have hinv : CallInv { count, timed } :=
    ⟨fun _ => ⟨rfl, rfl, rfl⟩, nofun, fun _ hserved => hserved.elim nofun nofun, nofun, nofun,
      fun hne => absurd rfl hne, nofun⟩
  refine ⟨h.order, h.numbers, ?_, ?_, ?_, ?_, .inl hempty, h.signal, fun hzero => absurd hzero hopen,
    h.kept, h.gone⟩
  · rw [flatMap_append]
    exact h.once.trans (by simp [RemoveCall.packets])
  · intro d hd
    rcases mem_append.mp hd with hd | hd
    · exact h.calls d hd
    · obtain rfl := mem_singleton.mp hd
      exact hinv
  · intro j
    rw [mem_cons, h.linked j, getElem?_append]
    split
    · rename_i hlt
      exact or_iff_right (Nat.ne_of_lt hlt)
    · rename_i hge
      rw [getElem?_eq_none (Nat.not_lt.mp hge)]
      constructor
      · rintro (rfl | ⟨_, hnone, _⟩)
        · rw [Nat.sub_self]
          exact ⟨_, rfl, rfl⟩
        · cases hnone
      · rintro ⟨d, hd, -⟩
        have hlast := (List.getElem?_eq_some_iff.mp hd).1
        rw [length_singleton] at hlast
        exact .inl (by omega)
  · refine pairwise_cons.mpr ⟨fun j hj => ?_, h.lifo⟩
    obtain ⟨d, hd, -⟩ := (h.linked j).mp hj
    exact (List.getElem?_eq_some_iff.mp hd).1

/-! ## The services -/

theorem PortInv.remove (h : PortInv [] s) (count : Nat) (timeout : CompletionPort.RemoveTimeout) :
    PortInv [] (s.ntRemoveIoCompletionEx count timeout) := by
  unfold CompletionPort.ntRemoveIoCompletionEx
  split
  · exact h
  rename_i hopen
  split
  · rename_i packet s1 htake
    obtain ⟨h1, -⟩ := h.take htake
    obtain ⟨h2, -⟩ := h1.drain (count - 1) rfl
    refine h2.appendCall ⟨nofun, nofun, nofun, nofun, nofun, fun _ => rfl, ?_⟩ rfl rfl
    rintro status packets hresult
    obtain ⟨rfl, rfl⟩ := Prod.mk.inj (Option.some.inj hresult)
    exact iff_of_true rfl (cons_ne_nil _ _)
  rename_i htake
  have hempty : s.queue = [] := by
    unfold CompletionPort.iopTakePacketLocked at htake
    split at htake
    · rename_i hqueue
      exact hqueue
    · cases htake
  split
  · refine h.appendCall ⟨nofun, nofun, nofun, nofun, nofun, fun _ => rfl, ?_⟩ rfl rfl
    rintro status packets hresult
    obtain ⟨rfl, rfl⟩ := Prod.mk.inj (Option.some.inj hresult)
    exact iff_of_false (by decide) fun hne => hne rfl
  · exact h.park hempty (fun hzero => hopen (.inr (.inl hzero))) count _

theorem PortInv.enqueue (h : PortInv [] s) (hwaiters : s.waiters = []) (halive : s.dead = false)
    (packet : CompletionPacket) (hnumber : packet.number = s.posted.length) :
    PortInv [] { s with queue := s.queue ++ [packet], posted := s.posted ++ [packet], queued := true } := by
  have hne : s.queue ++ [packet] ≠ [] := append_ne_nil_of_right_ne_nil _ (cons_ne_nil _ _)
  refine ⟨?_, ?_, h.once, h.calls, h.linked, h.lifo, .inr hwaiters, fun _ => iff_of_true rfl hne, h.closed,
    h.kept, fun hdead => absurd (halive.symm.trans hdead) nofun⟩
  · change s.posted ++ [packet] = s.removed ++ (s.queue ++ [packet]) ++ s.freed
    rw [h.order, h.kept halive, append_nil, append_nil, append_assoc]
  · change (s.posted ++ [packet]).map _ = _
    rw [map_append, h.numbers, length_append, length_singleton, range_succ, map_singleton,
      hnumber]

variable {status : NtStatus}

theorem iopPostCompletionPacket_waiting {rest : List Nat} {key value information : UInt64}
    (h : PortInv [] s) (hwaiters : s.waiters = i :: rest) (halive : s.dead = false) :
    s.iopPostCompletionPacket key value status information true =
      .ok { s with
        queue := []
        queued := false
        posted := s.posted ++ [.mk key value status information s.posted.length]
        removed := s.removed ++ [.mk key value status information s.posted.length]
        waiters := rest
        calls := s.calls.modify i fun c => { c with
          linked := false
          served := some (.mk key value status information s.posted.length)
          wait := c.wait.wake } } := by
  have hempty : s.queue = [] := h.idle.resolve_right fun hnil => by
    rw [hwaiters] at hnil
    cases hnil
  unfold CompletionPort.iopPostCompletionPacket
  simp only [halive, hwaiters, hempty, CompletionPort.iopTakePacketLocked, Bool.not_true,
    Bool.false_eq_true, or_self, if_false, nil_append, isEmpty_nil, if_true]

theorem PortInv.handOff {rest : List Nat} (h : PortInv [] s) (hwaiters : s.waiters = i :: rest)
    (hcall : s.calls[i]? = some c) (hsafe : c.terminating = false) (halive : s.dead = false)
    (hnumber : packet.number = s.posted.length) :
    PortInv [] { s with
      queue := []
      queued := false
      posted := s.posted ++ [packet]
      removed := s.removed ++ [packet]
      waiters := rest
      calls := s.calls.set i
        { c with linked := false, served := some packet, wait := c.wait.wake } } := by
  have hempty : s.queue = [] := h.idle.resolve_right fun hnil => by
    rw [hwaiters] at hnil
    cases hnil
  have hlinked : c.linked = true := by
    obtain ⟨d, hd, hdlinked⟩ := (h.linked i).mp (hwaiters ▸ mem_cons_self)
    rw [hcall] at hd
    obtain rfl := Option.some.inj hd
    exact hdlinked
  obtain ⟨hresult, hserved, habandoned⟩ := (h.calls c (mem_of_getElem? hcall)).linked hlinked
  -- The packet is owed to the call between the queue and the record.
  have howed : PortInv [packet] { s with
      queue := []
      queued := false
      posted := s.posted ++ [packet]
      removed := s.removed ++ [packet] } := by
    refine ⟨?_, ?_, ?_, h.calls, h.linked, h.lifo, .inl rfl, fun _ => ⟨nofun, fun hne => absurd rfl hne⟩,
      h.closed, h.kept, fun hdead => absurd (halive.symm.trans hdead) nofun⟩
    · change s.posted ++ [packet] = s.removed ++ [packet] ++ [] ++ s.freed
      rw [h.order, hempty, h.kept halive, append_nil, append_nil, append_nil, append_nil]
    · change (s.posted ++ [packet]).map _ = _
      rw [map_append, h.numbers, length_append, length_singleton, range_succ,
        map_singleton, hnumber]
    · have hperm := h.once.append_right [packet]
      rwa [append_nil] at hperm
  have hinv : CallInv { c with linked := false, served := some packet, wait := c.wait.wake } := by
    refine ⟨nofun, fun _ _ => .inl rfl, fun _ _ => ?_, fun _ _ => .inl rfl, fun hab => ?_, fun _ => hsafe,
      fun status packets heq => ?_⟩
    · cases c.wait <;> exact nofun
    · exact absurd (habandoned.symm.trans hab) nofun
    · exact absurd (hresult.symm.trans heq) nofun
  have hpackets : RemoveCall.packets { c with linked := false, served := some packet, wait := c.wait.wake } =
      c.packets ++ [packet] := by
    unfold RemoveCall.packets
    rw [hresult, hserved]
    rfl
  have hset := howed.setCall hcall hinv hpackets nofun
  simpa only [hwaiters, Bool.false_eq_true, if_false, erase_cons_head] using hset

theorem modify_eq_set {f : RemoveCall → RemoveCall} (hcall : s.calls[i]? = some c) :
    s.calls.modify i f = s.calls.set i (f c) := by
  obtain ⟨l1, l2, hcalls, rfl⟩ := eq_append_of_getElem? hcall
  rw [hcalls, ListUpdate.modify_append_cons, ListUpdate.set_append_cons]

theorem PortInv.post (h : PortInv [] s) (key value : UInt64) (status : NtStatus) (information : UInt64)
    (allocated : Bool) (hsafe : PortSafe s (.post key value status information allocated)) :
    ∃ s', s.iopPostCompletionPacket key value status information allocated = .ok s' ∧ PortInv [] s' := by
  cases halloc : allocated with
  | false => exact ⟨s, if_pos (.inr rfl), h⟩
  | true =>
    cases halive : s.dead with
    | true => exact ⟨s, if_pos (.inl halive), h⟩
    | false =>
      cases hwaiters : s.waiters with
      | nil =>
        refine ⟨_, ?_, h.enqueue hwaiters halive (.mk key value status information s.posted.length) rfl⟩
        unfold CompletionPort.iopPostCompletionPacket
        simp only [halive, hwaiters, Bool.not_true, Bool.false_eq_true, or_self, if_false]
      | cons i rest =>
        obtain ⟨c, hcall, -⟩ := (h.linked i).mp (hwaiters ▸ mem_cons_self)
        refine ⟨_, iopPostCompletionPacket_waiting h hwaiters halive, ?_⟩
        rw [modify_eq_set hcall]
        exact h.handOff hwaiters hcall (hsafe halloc i rest c hwaiters hcall) halive rfl

theorem PortInv.keepCall (h : PortInv [] s) (hcall : s.calls[i]? = some c) (hinv : CallInv c')
    (hpackets : c'.packets = c.packets) (hlinked : c'.linked = c.linked) :
    PortInv [] { s with calls := s.calls.set i c' } := by
  have hset := h.setCall hcall hinv (hpackets.trans (append_nil _).symm) fun hl => hlinked ▸ hl
  cases hl : c'.linked with
  | true => simpa only [hl, if_true] using hset
  | false =>
    have hout : i ∉ s.waiters := by
      intro hmem
      obtain ⟨d, hd, hdlinked⟩ := (h.linked i).mp hmem
      rw [hcall] at hd
      obtain rfl := Option.some.inj hd
      exact absurd (hdlinked.symm.trans (hlinked.symm.trans hl)) nofun
    simpa only [hl, Bool.false_eq_true, if_false, erase_of_not_mem hout] using hset

theorem PortInv.expire (h : PortInv [] s) (i : Nat) : PortInv [] (s.expire i) := by
  unfold CompletionPort.expire
  split
  · exact h
  rename_i c hcall
  split
  · rename_i hwaiting
    have hc := h.calls c (mem_of_getElem? hcall)
    exact h.keepCall hcall ⟨hc.linked, hc.unlinked, fun _ _ => nofun,
      fun _ htimeout => absurd (RemoveWait.ended.inj htimeout) (by decide), hc.abandoned, hc.delivered, hc.answered⟩ rfl rfl
  · exact h

theorem PortInv.terminate (h : PortInv [] s) (i : Nat) (hsafe : PortSafe s (.terminate i)) :
    PortInv [] (s.terminate i) := by
  unfold CompletionPort.terminate
  split
  · exact h
  rename_i c hcall
  split
  · exact h
  rename_i hrunning
  have hresult : c.result = none := Option.not_isSome_iff_eq_none.mp hrunning
  have hc := h.calls c (mem_of_getElem? hcall)
  have hpackets : c.packets = [] := by
    unfold RemoveCall.packets
    rw [hresult, hsafe c hcall hresult]
    rfl
  refine h.keepCall hcall ⟨hc.linked, hc.unlinked, fun hres hserved => ?_, fun hres hstatus => ?_, hc.abandoned,
    fun hne => absurd hpackets hne, hc.answered⟩ rfl rfl
  · have hwait := hc.woken hres hserved
    rw [if_neg hwait]
    exact hwait
  · by_cases hwait : c.wait = .waiting
    · rw [if_pos hwait] at hstatus
      exact absurd (RemoveWait.ended.inj hstatus) (by decide)
    · rw [if_neg hwait] at hstatus
      exact hc.status hres hstatus

theorem PortInv.finish (h : PortInv owed s) (hcall : s.calls[i]? = some c)
    (hinv : CallInv { c with linked := false, result := some (status, packets) })
    (hpackets : packets = c.packets ++ owed) :
    PortInv [] ((s.unlinked i c).returned i c status packets) := by
  have hset := h.setCall hcall hinv hpackets nofun
  simp only [Bool.false_eq_true, if_false] at hset
  unfold CompletionPort.unlinked
  split
  · exact hset
  · rename_i hl
    have hout : i ∉ s.waiters := by
      intro hmem
      obtain ⟨d, hd, hdlinked⟩ := (h.linked i).mp hmem
      rw [hcall] at hd
      obtain rfl := Option.some.inj hd
      exact hl hdlinked
    rwa [erase_of_not_mem hout] at hset

theorem CallInv.refused (hserved : c.served = none) (hne : status ≠ statusSuccess) :
    CallInv { c with linked := false, result := some (status, []) } := by
  refine ⟨nofun, nofun, nofun, nofun, fun _ => hserved, fun hne => absurd rfl hne, ?_⟩
  intro status' packets hret
  obtain ⟨rfl, rfl⟩ := Prod.mk.inj (Option.some.inj hret)
  exact iff_of_false hne fun hnil => hnil rfl

theorem RemoveCall.packets_running (hresult : c.result = none) : c.packets = c.served.toList := by
  rw [RemoveCall.packets, hresult]

theorem PortInv.run (h : PortInv [] s) (i : Nat) : ∃ s', s.run i = .ok s' ∧ PortInv [] s' := by
  unfold CompletionPort.run
  split
  · exact ⟨s, rfl, h⟩
  rename_i c hcall
  have hc := h.calls c (mem_of_getElem? hcall)
  split
  · rename_i status hresult hwait
    have hpackets := RemoveCall.packets_running hresult
    cases hserved : c.served with
    | some packet =>
      rw [hserved] at hpackets
      have hsafe : c.terminating = false := hc.delivered (hpackets ▸ cons_ne_nil _ _)
      have hlinked : ¬c.linked = true := fun hl => nomatch hserved.symm.trans (hc.linked hl).2.1
      have habandoned : ¬c.abandoned = true := fun hab => nomatch hserved.symm.trans (hc.abandoned hab)
      have hinv : CallInv { c with
          linked := false
          result := some (statusSuccess, packet :: (s.drain (c.count - 1)).1) } := by
        refine ⟨nofun, nofun, nofun, nofun, fun hab => absurd hab habandoned, fun _ => hsafe, ?_⟩
        intro status packets hret
        obtain ⟨rfl, rfl⟩ := Prod.mk.inj (Option.some.inj hret)
        exact iff_of_true rfl (cons_ne_nil _ _)
      have hsame (s : CompletionPort) : s.unlinked i c = s := if_neg hlinked
      obtain ⟨hdrained, hcalls, -⟩ := h.drain (c.count - 1) rfl
      have hnext := hdrained.finish (hcalls ▸ hcall) hinv (by rw [hpackets]; rfl)
      rw [hsame] at hnext ⊢
      exact ⟨_, rfl, hnext⟩
    | none =>
      rw [hserved] at hpackets
      dsimp only
      by_cases habandoned : c.abandoned = true
      · rw [if_pos habandoned]
        exact ⟨_, rfl, h.finish hcall (.refused hserved (by decide)) (by rw [hpackets]; rfl)⟩
      rw [if_neg habandoned]
      have hne : status ≠ statusSuccess := by
        rintro rfl
        exact (hc.status hresult hwait).elim (fun hs => by rw [hserved] at hs; cases hs) habandoned
      rw [if_neg hne]
      exact ⟨_, rfl, h.finish hcall (.refused hserved hne) (by rw [hpackets]; rfl)⟩
  · exact ⟨s, rfl, h⟩

def RemoveCall.abandon (c : RemoveCall) : RemoveCall :=
  { c with linked := false, abandoned := true, wait := c.wait.wake }

theorem abandonAll_getElem? (waiters : List Nat) (calls : List RemoveCall) (j : Nat) :
    (CompletionPort.abandonAll waiters calls)[j]? =
      (calls[j]?).map fun c => if j ∈ waiters then c.abandon else c := by
  have htwice (c : RemoveCall) : c.abandon.abandon = c.abandon := by
    cases hwait : c.wait <;> simp only [RemoveCall.abandon, RemoveWait.wake, hwait]
  induction waiters generalizing calls with
  | nil =>
    simp only [CompletionPort.abandonAll, not_mem_nil, if_false, Option.map_id']
  | cons i rest ih =>
    rw [CompletionPort.abandonAll, ih, getElem?_modify]
    cases calls[j]? with
    | none => rfl
    | some c =>
      by_cases hj : i = j
      · subst hj
        by_cases hrest : i ∈ rest
        · simp only [Option.map_some, if_true, hrest, mem_cons, true_or]
          exact congrArg some (htwice c)
        · simp only [Option.map_some, if_true, hrest, if_false, mem_cons, true_or]
          rfl
      · simp only [hj, if_false, mem_cons, Ne.symm hj, false_or]
        rfl

theorem abandonAll_eq_map (h : PortInv owed s) :
    CompletionPort.abandonAll s.waiters s.calls =
      s.calls.map fun c => if c.linked then c.abandon else c := by
  refine ext_getElem? fun j => ?_
  rw [abandonAll_getElem?, getElem?_map]
  cases hcall : s.calls[j]? with
  | none => rfl
  | some c =>
    have hmem : j ∈ s.waiters ↔ c.linked = true := by
      rw [h.linked j, hcall]
      simp only [Option.some.injEq, exists_eq_left']
    simp only [Option.map_some, hmem]

theorem CallInv.abandon (h : CallInv c) (hlinked : c.linked = true) :
    CallInv c.abandon ∧ c.abandon.packets = c.packets := by
  obtain ⟨hresult, hserved, -⟩ := h.linked hlinked
  have hpackets : c.abandon.packets = c.packets := rfl
  refine ⟨⟨nofun, fun _ _ => .inr rfl, fun _ _ => ?_, fun _ _ => .inr rfl, fun _ => hserved, h.delivered,
    h.answered⟩, hpackets⟩
  unfold RemoveCall.abandon
  cases c.wait <;> exact nofun

theorem PortInv.closeHandle (h : PortInv [] s) : PortInv [] s.closeHandle := by
  unfold CompletionPort.closeHandle
  split
  · rename_i hmore
    refine ⟨h.order, h.numbers, h.once, h.calls, h.linked, h.lifo, h.idle, h.signal, fun hzero => h.closed ?_,
      h.kept, fun hdead => ⟨?_, (h.gone hdead).2⟩⟩
    · change s.handles - 1 = 0 at hzero
      omega
    · change s.handles - 1 = 0
      rw [(h.gone hdead).1]
  · rw [abandonAll_eq_map h]
    have hcase (c : RemoveCall) (hc : CallInv c) :
        CallInv (if c.linked then c.abandon else c) ∧
          (if c.linked then c.abandon else c).packets = c.packets := by
      split
      · rename_i hlinked
        exact hc.abandon hlinked
      · exact ⟨hc, rfl⟩
    refine ⟨h.order, h.numbers, ?_, ?_, ?_, .nil, .inr rfl, nofun, fun _ => ⟨rfl, rfl⟩, h.kept,
      fun hdead => ⟨rfl, (h.gone hdead).2⟩⟩
    · have hsame : (s.calls.map fun c => if c.linked then c.abandon else c).flatMap RemoveCall.packets =
          s.calls.flatMap RemoveCall.packets := by
        rw [flatMap_map]
        exact flatMap_congr fun c hmem => (hcase c (h.calls c hmem)).2
      rw [hsame]
      exact h.once
    · intro d hd
      obtain ⟨c, hmem, rfl⟩ := List.mem_map.mp hd
      exact (hcase c (h.calls c hmem)).1
    · intro j
      refine iff_of_false not_mem_nil ?_
      rintro ⟨d, hd, hlinked⟩
      obtain ⟨c, -, rfl⟩ := List.mem_map.mp (mem_of_getElem? hd)
      split at hlinked
      · cases hlinked
      · rename_i hl
        exact hl hlinked

theorem PortInv.openHandle (h : PortInv [] s) : PortInv [] s.openHandle := by
  unfold CompletionPort.openHandle
  split
  · exact h
  · rename_i halive
    exact ⟨h.order, h.numbers, h.once, h.calls, h.linked, h.lifo, h.idle, h.signal,
      fun hzero => absurd hzero (Nat.succ_ne_zero _), h.kept, fun hdead => absurd hdead halive⟩

theorem PortInv.delete (h : PortInv [] s) : ∃ s', s.delete = .ok s' ∧ PortInv [] s' := by
  unfold CompletionPort.delete
  split
  · exact ⟨s, rfl, h⟩
  rename_i hgone
  obtain ⟨halive, hgone⟩ := not_or.mp hgone
  obtain ⟨hzero, -⟩ := not_or.mp hgone
  obtain ⟨hwaiters, hclosed⟩ := h.closed (not_not.mp hzero)
  rw [if_neg (not_not.mpr hwaiters)]
  have hkept := h.kept (Bool.eq_false_iff.mpr halive)
  refine ⟨_, rfl, ?_, h.numbers, h.once, h.calls, h.linked, h.lifo, .inl rfl, fun hopen => ?_, h.closed, nofun,
    fun _ => ⟨not_not.mp hzero, rfl⟩⟩
  · change s.posted = s.removed ++ [] ++ s.queue
    rw [h.order, hkept, append_nil, append_nil]
  · exact absurd (hclosed.symm.trans hopen) nofun

theorem PortInv.step {op : PortOp} (h : PortInv [] s) (hsafe : PortSafe s op) :
    ∃ s', s.step op = .ok s' ∧ PortInv [] s' := by
  cases op with
  | post key value status information allocated => exact h.post key value status information allocated hsafe
  | remove count timeout => exact ⟨_, rfl, h.remove count timeout⟩
  | expire i => exact ⟨_, rfl, h.expire i⟩
  | terminate i => exact ⟨_, rfl, h.terminate i hsafe⟩
  | run i => exact h.run i
  | waitHandle => exact ⟨_, rfl, h⟩
  | openHandle => exact ⟨_, rfl, h.openHandle⟩
  | closeHandle => exact ⟨_, rfl, h.closeHandle⟩
  | delete => exact h.delete

theorem PortReaches.inv (hs : PortReaches PortSafe s) : PortInv [] s := by
  induction hs with
  | new => exact portInv_new
  | step op _ hsafe h ih =>
    obtain ⟨s', hs', hinv⟩ := ih.step hsafe
    rw [h] at hs'
    obtain rfl := Except.ok.inj hs'
    exact hinv

/-! ## Every run -/

theorem PortInv.sound (h : PortInv [] s) (op : PortOp) : ∃ s', s.step op = .ok s' := by
  by_cases hsafe : PortSafe s op
  · obtain ⟨s', hs', -⟩ := h.step hsafe
    exact ⟨s', hs'⟩
  cases op with
  | post key value status information allocated =>
    cases halive : s.dead with
    | true => exact ⟨s, if_pos (.inl halive)⟩
    | false =>
      cases allocated with
      | false => exact absurd (fun hno => nomatch hno) hsafe
      | true =>
        cases hwaiters : s.waiters with
        | nil => exact absurd (fun _ i rest c hcons => nomatch hwaiters.symm.trans hcons) hsafe
        | cons i rest => exact ⟨_, iopPostCompletionPacket_waiting h hwaiters halive⟩
  | terminate i => exact ⟨_, rfl⟩
  | remove | expire | run | waitHandle | openHandle | closeHandle | delete => exact absurd trivial hsafe

theorem PortInv.delivers (h : PortInv [] s) : Delivers s where
  order := h.order
  distinct := Nodup.of_map _ (h.numbers ▸ nodup_range)
  once := by
    have hperm := h.once
    rwa [append_nil] at hperm
  delivered := fun c hc => (h.calls c hc).delivered
  answered := fun c hc => (h.calls c hc).answered
  kept := h.kept
  idle := h.idle
  lifo := h.lifo
  served := by
    intro i rest key value status information hwaiters
    have halive : s.dead = false := by
      cases hdead : s.dead with
      | false => rfl
      | true => exact absurd ((h.closed (h.gone hdead).1).1.symm.trans hwaiters) nofun
    obtain ⟨c, hcall, -⟩ := (h.linked i).mp (hwaiters ▸ mem_cons_self)
    refine ⟨_, iopPostCompletionPacket_waiting h hwaiters halive, rfl, ?_, fun j hj => ?_⟩
    · simp only [getElem?_modify, hcall, if_true]
      rfl
    · simp only [getElem?_modify, Ne.symm hj, if_false]
      cases s.calls[j]? <;> rfl
  signal := h.signal
  woken := fun c hc => (h.calls c hc).woken
  closed := by
    intro hzero c hc hresult
    refine (h.calls c hc).unlinked ?_ hresult
    cases hl : c.linked with
    | false => rfl
    | true =>
      obtain ⟨j, hj⟩ := mem_iff_getElem?.mp hc
      have hmem := (h.linked j).mpr ⟨c, hj, hl⟩
      rw [(h.closed hzero).1] at hmem
      cases hmem
  abandoned := by
    intro i c hcall habandoned hresult
    have hc := h.calls c (mem_of_getElem? hcall)
    have hserved := hc.abandoned habandoned
    have hunlinked : ¬c.linked = true := fun hl => nomatch habandoned.symm.trans (hc.linked hl).2.2
    have hlt : i < s.calls.length := (List.getElem?_eq_some_iff.mp hcall).1
    cases hwait : c.wait with
    | waiting => exact absurd hwait (hc.woken hresult (.inr habandoned))
    | ended status =>
      refine ⟨s.returned i c statusAbandonedWait0 [], ?_, ?_⟩
      · change s.run i = _
        rw [CompletionPort.run, hcall]
        simp only [hresult, hwait, hserved, habandoned, if_true, CompletionPort.unlinked, hunlinked,
          Bool.false_eq_true, if_false]
      · unfold CompletionPort.returned
        simp only [getElem?_set_self hlt, Option.bind_some]
  sound := h.sound

/-- In every run that hands no packet to a terminated thread and terminates no thread that has one, the
port delivers its packets. -/
theorem completionPort_delivers (h : PortReaches PortSafe s) : Delivers s := h.inv.delivers

/-- A packet is handed to a parked thread, which returns with it. -/
def sampleRun : CompletionPort :=
  { calls := [{
      count := 1
      linked := false
      served := some (.mk 1 2 statusSuccess 3 0)
      wait := .ended statusSuccess
      result := some (statusSuccess, [.mk 1 2 statusSuccess 3 0]) }]
    posted := [.mk 1 2 statusSuccess 3 0]
    removed := [.mk 1 2 statusSuccess 3 0] }

theorem completionPort_delivers_sample : PortReaches PortSafe sampleRun ∧ Delivers sampleRun := by
  have hreaches : PortReaches PortSafe sampleRun := by
    refine .step (.run 0) (.step (.post 1 2 statusSuccess 3 true)
      (.step (.remove 1 .never) .new trivial rfl) ?_ rfl) trivial rfl
    rintro - i rest c hwaiters hcall
    obtain ⟨rfl, -⟩ := List.cons.inj hwaiters
    obtain rfl := Option.some.inj hcall
    rfl
  exact ⟨hreaches, completionPort_delivers hreaches⟩

/-- A thread parks and is terminated, and a packet is posted before it runs again. -/
def swallowedRun : CompletionPort :=
  { calls := [{
      count := 1
      linked := false
      served := some (.mk 1 2 statusSuccess 3 0)
      wait := .ended statusThreadIsTerminating
      terminating := true
      result := some (statusSuccess, [.mk 1 2 statusSuccess 3 0]) }]
    posted := [.mk 1 2 statusSuccess 3 0]
    removed := [.mk 1 2 statusSuccess 3 0] }

/-- The packet goes to the thread whose wait was aborted. -/
theorem completionPort_swallows :
    PortReaches (fun _ _ => True) swallowedRun ∧ ¬Delivers swallowedRun := by
  refine ⟨.step (.run 0) (.step (.post 1 2 statusSuccess 3 true)
    (.step (.terminate 0) (.step (.remove 1 .never) .new trivial rfl) trivial rfl) trivial rfl) trivial rfl,
    fun h => ?_⟩
  exact absurd (h.delivered _ (mem_singleton_self _) (cons_ne_nil _ _)) nofun

end Proskrnl.Io
