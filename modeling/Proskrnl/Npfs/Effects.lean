import Proskrnl.Npfs.Pipe

/-!
# What a step does

`Effect` is one change of an instance, with what the code has found out before it makes it. Every step
is a sequence of effects (`step_effects`), and the results about runs are about effects.
-/

namespace Proskrnl.Npfs
open MessageQueue

/-- The statuses with which a read that waits its turn is answered. -/
def servedStatuses : List NtStatus :=
  [statusSuccess, statusBufferOverflow, statusPipeDisconnected, statusPipeListening, statusPipeBroken]

/-- What a read that gets bytes answers. -/
def Transfers (status : NtStatus) : Prop := status = statusSuccess ∨ status = statusBufferOverflow

instance (status : NtStatus) : Decidable (Transfers status) := by unfold Transfers; infer_instance

def Foremost (s : Instance) (r : Request) : Prop :=
  r.synchronous = false → r.verb.reads = true → r.id + 1 = s.requests ∧ s.pendingOn r.file = []

def Park.Fits (pipeType : Mode) (p : Park) : Prop :=
  match p.wait with
  | .read _ => p.request.verb.reads = true ∧ p.request.synchronous = true
  | .writeMessage => p.request.verb = .write
  | .writeBytes rest =>
    p.request.verb = .write ∧ pipeType = .bytes ∧ rest ⊆ p.request.data ∧ rest ≠ []
  | .flush _ => p.request.verb = .flush
  | .listen => p.request.verb = .listen

def accept (s : Instance) (r : Request) (data : List Octet) : Instance :=
  let d := r.file.outgoing
  let queue := s.queue d
  { s.setQueue d { queue with
      bufferList := queue.bufferList ++ [⟨data, 0⟩]
      bytesAvailable := (queue.bytesAvailable + data.length) % ulong } with
    trace := .accepted r s.connection data :: s.trace }

def connect (s : Instance) (synchronousIo : Bool) : Instance :=
  let n := s.connection + 1
  { s.setEnd (.client n) { pipe := true, synchronousIo, handle := true } with
    clientEnd := some n
    openEnds := .client n :: s.openEnds
    state := .connected
    connection := n }

def throwOut (s : Instance) : Instance :=
  { orphanClient (npfsFlushQueue (npfsFlushQueue s .inbound) .outbound) with state := .disconnected }

def cancelReads (s : Instance) (drop : Request → Bool) : Instance :=
  completeAll statusCancelled (s.pendingReads.filter drop)
    { s with pendingReads := s.pendingReads.filter fun r => !drop r }

def answerListens (s : Instance) (status : NtStatus) (drop : Request → Bool) : Instance :=
  completeAll status (s.pendingListens.filter drop)
    { s with pendingListens := s.pendingListens.filter fun r => !drop r }

def leave (s : Instance) (e : EndId) : Instance :=
  let s := { s.setEnd e { s.ends e with handle := false } with
    state := if (s.ends e).pipe ∧ s.state = .connected then .closing else s.state }
  match e with
  | .server => { s with serverEnd := false }
  | .client n => if s.clientEnd = some n then { s with clientEnd := none } else s

/-- Which steps a run makes: the instances that clients attach to, the parked threads that go on, and the
ends that lose their handle. -/
structure Allows where
  attach : Instance → Prop
  resume : Park → Prop
  leave : EndId → Prop := fun _ => True

inductive Effect (allows : Allows) : List Request → Instance → List Request → Instance → Prop
  | issue {s : Instance} (e : EndId) (verb : Verb) (length : Nat) (data : List UInt8) :
    e ∈ s.openEnds → (s.ends e).handle = true → Effect allows [] s [s.request e verb length data] s.issue
  | resume {s : Instance} {p : Park} :
    p ∈ s.parked → allows.resume p → Effect allows [] s [p.request] { s with parked := s.parked.erase p }
  | wake {hand : List Request} {s : Instance} (event : KEvent) :
    Effect allows hand s hand (s.keSetEvent event)
  | park {s : Instance} {r : Request} {wait : Wait} :
    s.state = .connected ∧ (s.ends r.file).pipe = true ∨ wait = .listen →
    Park.Fits s.pipeType ⟨r, wait, false⟩ →
    Effect allows [r] s [] (s.park r wait)
  | pend {s : Instance} {r : Request} :
    npfsReadReady s r.file false = statusPending →
    r.id + 1 = s.requests → r.verb.reads = true → r.synchronous = false →
    Effect allows [r] s [] { s with pendingReads := s.pendingReads ++ [r] }
  | pendListen {s : Instance} {r : Request} :
    r.verb = .listen →
    Effect allows [r] s [] { s with pendingListens := s.pendingListens ++ [r] }
  | append {s : Instance} {r : Request} {data : List Octet} :
    r.verb ≠ .listen → npfsCheckWritableState s r.file = statusSuccess → data ⊆ r.data →
    (s.pipeType = .message → data = r.data) → Effect allows [r] s [r] (accept s r data)
  | drain {s s' : Instance} {r : Request} {result : Result} :
    r.verb.reads = true → npfsReadReady s r.file (s.pendingOn r.file ≠ []) = statusSuccess →
    npfsReadDrain s r.file r.length = .ok (s', result) → Foremost s r →
    Effect allows [r] s [] (s'.complete r result)
  | serve {hand : List Request} {s s' : Instance} {r : Request} {rest : List Request}
    {result : Result} :
    s.pendingOn r.file = r :: rest → npfsReadReady s r.file false = statusSuccess →
    npfsReadDrain s r.file r.length = .ok (s', result) →
    Effect allows hand s hand ({ s' with pendingReads := s'.pendingReads.erase r }.complete r result)
  | fail {hand : List Request} {s : Instance} {r : Request} {rest : List Request} {status : NtStatus} :
    s.pendingOn r.file = r :: rest → npfsReadReady s r.file false = status → ¬ Transfers status →
    Effect allows hand s hand
      ({ s with pendingReads := s.pendingReads.erase r }.complete r ⟨status, 0, []⟩)
  | finish {s : Instance} {r : Request} {result : Result} :
    result.data = [] → (r.verb.reads = true → ¬ Transfers result.status) →
    (result.status ∈ servedStatuses → Foremost s r) → Effect allows [r] s [] (s.complete r result)
  | cancelReads {s : Instance} (drop : Request → Bool) : Effect allows [] s [] (cancelReads s drop)
  | answerListens {s : Instance} (status : NtStatus) (drop : Request → Bool) :
    Effect allows [] s [] (answerListens s status drop)
  | connect {s : Instance} (synchronousIo : Bool) :
    allows.attach s → s.state = .listening → s.serverEnd = true → s.pendingReads = [] →
    Effect allows [] s [] (connect s synchronousIo)
  | relisten {hand : List Request} {s : Instance} :
    s.state = .disconnected → Effect allows hand s hand { s with state := .listening }
  | throwOut {s : Instance} :
    s.state = .connected ∨ s.state = .closing → Effect allows [] s [] (throwOut s)
  | leave {s : Instance} (e : EndId) : allows.leave e → Effect allows [] s [] (leave s e)
  | setModes {s : Instance} (e : EndId) (readMode : Mode) (completionMode : CompletionMode) :
    Effect allows [] s [] (s.setEnd e { s.ends e with readMode, completionMode })
  | free {s : Instance} {e : EndId} :
    s.has e = false → (∀ p ∈ s.parked, p.request.file ≠ e) → Effect allows [] s [] (freeEnd s e)

def Effects (allows : Allows) (a b : List Request × Instance) : Prop :=
  Relation.ReflTransGen (fun a b : List Request × Instance => Effect allows a.1 a.2 b.1 b.2) a b

theorem Effect.effects {allows : Allows} {hand hand' : List Request} {s s' : Instance} (h : Effect allows hand s hand' s') :
    Effects allows (hand, s) (hand', s') := .single h

theorem Effects.trans {allows : Allows} {a b c : List Request × Instance}
    (h : Effects allows a b) (h' : Effects allows b c) : Effects allows a c := Relation.ReflTransGen.trans h h'

section
variable {s s' : Instance} {e : EndId} {r : Request} {ahead : Bool}

theorem npfsReadReady_of_failed (h : npfsReadReady s e ahead ≠ statusPending)
    (hfailed : npfsReadReady s e ahead ≠ statusSuccess) :
    npfsReadReady s e false = npfsReadReady s e ahead := by
  unfold npfsReadReady at *
  cases ahead with
  | false => rfl
  | true =>
    repeat' split at h
    all_goals simp_all

theorem npfsReadReady_success (h : npfsReadReady s e ahead = statusSuccess) :
    (s.queue e.incoming).bufferList ≠ [] ∧ (s.state = .connected ∨ s.state = .closing) ∧
      ahead = false ∧ (s.ends e).pipe = true := by
  unfold npfsReadReady npfsEndDisconnected at h
  repeat' split at h
  all_goals first | exact absurd h (by decide) | skip
  cases hstate : s.state with
  | disconnected => simp_all
  | listening => simp_all
  | connected => simp_all
  | closing => simp_all

theorem npfsReadReady_pending (h : npfsReadReady s e false = statusPending) :
    (s.queue e.incoming).bufferList = [] ∧ s.state = .connected ∧ (s.ends e).pipe = true := by
  simp only [npfsReadReady, npfsEndDisconnected, Bool.false_eq_true, if_false] at h
  repeat' split at h
  all_goals first | exact absurd h (by decide) | skip
  cases hstate : s.state with
  | disconnected => simp_all
  | listening => simp_all
  | connected => simp_all
  | closing => simp_all

theorem npfsReadReady_congr (hstate : s'.state = s.state) (hpipe : (s'.ends e).pipe = (s.ends e).pipe)
    (hqueue : (s'.queue e.incoming).bufferList = (s.queue e.incoming).bufferList) :
    npfsReadReady s' e ahead = npfsReadReady s e ahead := by
  unfold npfsReadReady npfsEndDisconnected
  rw [hstate, hpipe, hqueue]

theorem npfsReadReady_not_transfers (hsuccess : npfsReadReady s e ahead ≠ statusSuccess) :
    ¬ Transfers (npfsReadReady s e ahead) := by
  unfold npfsReadReady at *
  repeat' split at hsuccess
  all_goals simp_all <;> decide

end

end Proskrnl.Npfs
