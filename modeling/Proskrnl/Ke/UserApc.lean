import Proskrnl.Abi.Status
import Mathlib.Data.List.Nodup

/-!
# User APCs

`kernel/ke/apc.c`, and what reaches it: `PspQueueUserApc` (`kernel/ps/thread.c`), the alertable waits
(`kernel/ke/wait.c`), `KiContinue` and `KiDeliverUserApc` (`kernel/ps/usermode.c`), and the return of a
system call (`kernel/syscall/table.c`). An APC should be delivered once, in its turn, and on the return of
a call that was alertable.
-/

namespace Proskrnl.Ke
open List

/-! ## Queues -/

/-- A `KAPC` with a routine: the caller's mark for it, and the reserve object that its block comes from. -/
structure UserApc where
  context : Nat
  reserveObject : Option Nat
deriving DecidableEq

/-- What a thread is doing. -/
inductive ApcActivity
  | user
  /-- In a system call; `alertable` if its wait ended with `STATUS_USER_APC`, or it tests alerts. -/
  | call (alertable : Bool)
  | waiting (waitAlertable : Bool)
  | terminated
deriving DecidableEq

/-- A `KTHREAD`, with what became of the APCs that it accepted: those delivered, each with whether the call
that it returned from was alertable, and those released when it exited. -/
structure ApcThread where
  userApcListHead : List UserApc
  userApcPending : Bool
  apcDeliverPending : Bool
  alerted : Bool
  activity : ApcActivity
  accepted : List UserApc
  delivered : List (UserApc × Bool)
  released : List UserApc
  /-- The last delivery did not empty the queue. -/
  left : Bool

/-- The threads, and the reserve objects that have a bound block. -/
structure ApcState where
  threads : Nat → ApcThread
  boundApc : Nat → Bool

/-- `ObpReleaseApcReserve` for the block of an APC that came from a reserve (`KiFreeUserApc`). -/
def kiFreeUserApc (boundApc : Nat → Bool) (apc : UserApc) : Nat → Bool :=
  match apc.reserveObject with
  | none => boundApc
  | some reserve => Function.update boundApc reserve false

def ApcState.setThread (s : ApcState) (t : Nat) (thread : ApcThread) : ApcState :=
  { s with threads := Function.update s.threads t thread }

/-- `KiInsertQueueUserApc` with a block, for a thread that is not terminated. -/
def ApcThread.insert (thread : ApcThread) (apc : UserApc) : ApcThread :=
  let thread :=
    { thread with
      userApcListHead := thread.userApcListHead ++ [apc]
      userApcPending := true
      accepted := thread.accepted ++ [apc] }
  match thread.activity with
  | .waiting true => { thread with apcDeliverPending := true, activity := .call true }
  | _ => thread

/-- A request to queue an APC: by `NtQueueApcThreadEx2` with or without a reserve, or by the completion of
a transfer. -/
structure ApcRequest where
  target : Option Nat
  reserveObject : Option Nat
  routine : Bool
  context : Nat
  memory : Bool

/-- `PspQueueUserApc`. A target that is not found, no routine and no memory give the reserve back. -/
def pspQueueUserApc (s : ApcState) (r : ApcRequest) : ApcState × NtStatus :=
  match r.target with
  | none =>
    if r.reserveObject.any s.boundApc then (s, statusInvalidParameter2) else (s, statusInvalidHandle)
  | some t =>
    if r.reserveObject.any s.boundApc then (s, statusInvalidParameter2)
    else if r.routine && r.reserveObject.isNone && !r.memory then (s, statusNoMemory)
    else if (s.threads t).activity = .terminated then (s, statusUnsuccessful)
    else if !r.routine then (s, statusSuccess)
    else
      ({ threads := Function.update s.threads t ((s.threads t).insert ⟨r.context, r.reserveObject⟩)
         boundApc := fun reserve => s.boundApc reserve || r.reserveObject == some reserve }, statusSuccess)

/-! ## A thread's own steps -/

/-- A system call, as far as it is about alerts. -/
inductive ApcCall
  | testAlert
  /-- `NtContinue` and `NtContinueEx`. -/
  | continue (testAlert : Bool)
  /-- A wait that is satisfied, times out at once, or parks. -/
  | wait (alertable satisfied parks : Bool)
  | other

/-- The thread enters a system call and goes on until it parks or is about to return. -/
def ApcThread.enter (thread : ApcThread) : ApcCall → ApcThread
  | .testAlert =>
    { thread with
      alerted := false
      apcDeliverPending := thread.apcDeliverPending || !thread.userApcListHead.isEmpty
      activity := .call true }
  | .continue testAlert =>
    { thread with
      apcDeliverPending := thread.apcDeliverPending || testAlert && !thread.userApcListHead.isEmpty
      activity := .call testAlert }
  | .wait alertable satisfied parks =>
    if satisfied then { thread with activity := .call false }
    else if alertable && (thread.userApcPending || thread.alerted) then
      if thread.userApcPending then { thread with apcDeliverPending := true, activity := .call true }
      else { thread with alerted := false, activity := .call false }
    else if parks then { thread with activity := .waiting alertable }
    else { thread with activity := .call false }
  | .other => { thread with activity := .call false }

/-- `KiUserApcPending`. -/
def ApcThread.kiUserApcPending (thread : ApcThread) : Bool :=
  thread.apcDeliverPending && !thread.userApcListHead.isEmpty

/-- The return of a system call, with `KiDeliverUserApc`. A frame that cannot be built, for want of a
dispatcher or of stack, drops the APC. -/
def ApcState.ret (s : ApcState) (t : Nat) (alertable frame : Bool) : ApcState :=
  let thread := { s.threads t with activity := .user }
  match thread.userApcListHead with
  | apc :: rest =>
    if thread.apcDeliverPending then
      { threads := Function.update s.threads t
          { thread with
            userApcListHead := rest
            userApcPending := thread.userApcPending && !rest.isEmpty
            apcDeliverPending := thread.apcDeliverPending && !rest.isEmpty
            delivered := if frame then thread.delivered ++ [(apc, alertable)] else thread.delivered
            left := !rest.isEmpty }
        boundApc := kiFreeUserApc s.boundApc apc }
    else s.setThread t thread
  | [] => s.setThread t thread

/-- `KiTerminateThread`, with `KiDrainUserApcQueue`. -/
def ApcState.exit (s : ApcState) (t : Nat) : ApcState :=
  let thread := s.threads t
  { threads := Function.update s.threads t
      { thread with
        userApcListHead := []
        userApcPending := false
        apcDeliverPending := false
        activity := .terminated
        released := thread.userApcListHead }
    boundApc := thread.userApcListHead.foldl kiFreeUserApc s.boundApc }

inductive ApcEvent
  | queue (request : ApcRequest)
  | enter (t : Nat) (call : ApcCall)
  /-- A wait ends otherwise than by an APC. -/
  | wake (t : Nat)
  /-- `NtAlertThread`. -/
  | alert (t : Nat)
  | ret (t : Nat) (frame : Bool)
  | exit (t : Nat)

/-- A step; none if the thread is not where it could take it. -/
def ApcState.step (s : ApcState) : ApcEvent → Option ApcState
  | .queue request => some (pspQueueUserApc s request).1
  | .enter t call =>
    if (s.threads t).activity = .user then some (s.setThread t ((s.threads t).enter call)) else none
  | .wake t =>
    match (s.threads t).activity with
    | .waiting _ => some (s.setThread t { s.threads t with activity := .call false })
    | _ => none
  | .alert t =>
    match (s.threads t).activity with
    | .waiting true => some (s.setThread t { s.threads t with activity := .call false })
    | _ => some (s.setThread t { s.threads t with alerted := true })
  | .ret t frame =>
    match (s.threads t).activity with
    | .call alertable => some (s.ret t alertable frame)
    | _ => none
  | .exit t => if (s.threads t).activity = .terminated then none else some (s.exit t)

def ApcState.run (s : ApcState) (events : List ApcEvent) : Option ApcState := events.foldlM ApcState.step s

/-- The reserves whose blocks are queued to a thread. -/
def ApcThread.reserves (thread : ApcThread) : List Nat := thread.userApcListHead.filterMap (·.reserveObject)

/-- What a thread accepted was delivered, in the order of the queue, or is still queued, or was released
when it exited; and every delivery was on an alertable return. -/
structure ApcThread.Exact (thread : ApcThread) : Prop where
  once : thread.accepted = thread.delivered.map Prod.fst ++ thread.userApcListHead ++ thread.released
  alive : thread.activity ≠ .terminated → thread.released = []
  exited : thread.activity = .terminated → thread.userApcListHead = []
  alertable : ∀ delivery ∈ thread.delivered, delivery.2 = true
  pending : thread.userApcPending = !thread.userApcListHead.isEmpty

/-- A reserve is bound just while its block is queued, to one thread and once. -/
def ReservesExact (queued : Nat → List Nat) (boundApc : Nat → Bool) : Prop :=
  ∀ reserve, if boundApc reserve then
      ∃ owner, ∀ t, (queued t).count reserve = if t = owner then 1 else 0
    else ∀ t, (queued t).count reserve = 0

structure ApcState.Exact (s : ApcState) : Prop where
  threads : ∀ t, (s.threads t).Exact
  reserves : ReservesExact (fun t => (s.threads t).reserves) s.boundApc

/-- A frame can be built for an APC that is due; and a call that is not alertable does not return while an
earlier delivery has left an APC in the queue. -/
def ApcState.Meets (s : ApcState) : ApcEvent → Prop
  | .ret t frame =>
    ((s.threads t).kiUserApcPending = true → frame = true) ∧
    ((s.threads t).activity = .call false → (s.threads t).left = false)
  | _ => True

def ApcState.RunMeets : List ApcEvent → ApcState → Prop
  | [], _ => True
  | event :: events, s => s.Meets event ∧ ∀ s', s.step event = some s' → RunMeets events s'

/-- Threads that have been queued nothing. -/
structure ApcState.Initial (s : ApcState) : Prop where
  threads : ∀ t, ∃ alerted, s.threads t = ⟨[], false, false, alerted, .user, [], [], [], false⟩
  boundApc : ∀ reserve, s.boundApc reserve = false

/-! ## Reserves -/

section
variable {queued : Nat → List Nat} {boundApc : Nat → Bool} {t reserve : Nat} {gone rest : List Nat}

theorem ReservesExact.add (h : ReservesExact queued boundApc) (hfree : boundApc reserve = false) (t : Nat) :
    ReservesExact (Function.update queued t (queued t ++ [reserve]))
      fun r => boundApc r || some reserve == some r := by
  have hfirst := h reserve
  rw [hfree, if_neg Bool.false_ne_true] at hfirst
  intro r
  by_cases hr : reserve = r
  · subst hr
    rw [if_pos (by simp)]
    refine ⟨t, fun t' => ?_⟩
    rw [Function.update_apply]
    split
    · rw [count_append, hfirst, count_singleton_self]
    · exact hfirst t'
  · have hcount (t' : Nat) :
        (Function.update queued t (queued t ++ [reserve]) t').count r = (queued t').count r := by
      rw [Function.update_apply]
      split
      · rename_i ht
        rw [ht, count_append, count_singleton, if_neg (by simpa using hr), Nat.add_zero]
      · rfl
    have hrest := h r
    simpa only [hcount, Option.some.injEq, beq_eq_false_iff_ne.mpr hr, Option.some_beq_some,
      Bool.or_false] using hrest

theorem ReservesExact.remove (h : ReservesExact queued boundApc) (hqueued : queued t = gone ++ rest) :
    ReservesExact (Function.update queued t rest) fun r => boundApc r && !gone.contains r := by
  intro r
  have hr := h r
  have hcount : (queued t).count r = gone.count r + rest.count r := by rw [hqueued, count_append]
  by_cases hgone : r ∈ gone
  · have hpos := count_pos_iff.mpr hgone
    rw [if_neg (by simp [hgone])]
    intro t'
    split at hr
    · obtain ⟨owner, howner⟩ := hr
      have ht := howner t
      rw [Function.update_apply]
      split at ht
      case isTrue hself =>
        split
        · omega
        · rename_i hne
          rw [howner, if_neg (fun heq => hne (heq.trans hself.symm))]
      case isFalse => omega
    · have ht := hr t
      omega
  · have hzero : gone.count r = 0 := count_eq_zero.mpr hgone
    have hsame (t' : Nat) : (Function.update queued t rest t').count r = (queued t').count r := by
      rw [Function.update_apply]
      split
      · rename_i ht
        rw [ht]
        omega
      · rfl
    simpa [hsame, hgone] using hr

end

theorem foldl_kiFreeUserApc (apcs : List UserApc) (boundApc : Nat → Bool) :
    apcs.foldl kiFreeUserApc boundApc =
      fun r => boundApc r && !(apcs.filterMap (·.reserveObject)).contains r := by
  induction apcs generalizing boundApc with
  | nil => simp
  | cons apc apcs ih =>
    funext r
    rw [foldl_cons, ih, kiFreeUserApc, filterMap_cons]
    cases apc.reserveObject with
    | none => rfl
    | some reserve =>
      simp only [Function.update_apply, contains_cons]
      by_cases hr : r = reserve <;> simp [hr, beq_eq_false_iff_ne.mpr]

/-! ## Steps -/

/-- What the steps keep of a thread. -/
structure ApcThread.Inv (thread : ApcThread) : Prop where
  exact : thread.Exact
  queued : thread.apcDeliverPending = true → thread.userApcListHead ≠ []
  due : thread.apcDeliverPending = true → thread.left = true ∨ thread.activity = .call true

structure ApcState.Inv (s : ApcState) : Prop where
  threads : ∀ t, (s.threads t).Inv
  reserves : ReservesExact (fun t => (s.threads t).reserves) s.boundApc

section
variable {s s' : ApcState} {t : Nat} {thread : ApcThread}

theorem ApcState.Inv.update {boundApc : Nat → Bool} (h : s.Inv) (hthread : thread.Inv)
    (hreserves : ReservesExact (Function.update (fun t => (s.threads t).reserves) t thread.reserves) boundApc) :
    ApcState.Inv { threads := Function.update s.threads t thread, boundApc } := by
  refine ⟨fun t' => ?_, ?_⟩
  · dsimp only
    rw [Function.update_apply]
    split
    · exact hthread
    · exact h.threads t'
  · have hqueued : (fun t' => (Function.update s.threads t thread t').reserves) =
        Function.update (fun t => (s.threads t).reserves) t thread.reserves :=
      funext fun t' => Function.apply_update (fun _ => ApcThread.reserves) s.threads t thread t'
    exact hqueued ▸ hreserves

theorem ApcState.Inv.setThread (h : s.Inv) (hthread : thread.Inv)
    (hqueue : thread.userApcListHead = (s.threads t).userApcListHead) : (s.setThread t thread).Inv := by
  refine h.update hthread ?_
  rw [ApcThread.reserves, hqueue]
  exact (Function.update_eq_self t fun t => (s.threads t).reserves).symm ▸ h.reserves

theorem ApcThread.Inv.goes {activity : ApcActivity} {deliver alerted : Bool} (h : thread.Inv)
    (halive : thread.activity ≠ .terminated) (hactivity : activity ≠ .terminated)
    (hqueued : deliver = true → thread.userApcListHead ≠ [])
    (hdue : deliver = true → thread.left = true ∨ activity = .call true) :
    ApcThread.Inv { thread with activity, apcDeliverPending := deliver, alerted } where
  exact :=
    { h.exact with
      alive := fun _ => h.exact.alive halive
      exited := fun hterminated => absurd hterminated hactivity }
  queued := hqueued
  due := hdue

theorem ApcThread.Inv.left_of_user (h : thread.Inv) (huser : thread.activity ≠ .call true)
    (hdue : thread.apcDeliverPending = true) : thread.left = true := (h.due hdue).resolve_right huser

theorem ApcThread.Inv.enter (h : thread.Inv) (huser : thread.activity = .user) (call : ApcCall) :
    (thread.enter call).Inv := by
  have halive : thread.activity ≠ .terminated := by rw [huser]; nofun
  have hleft : thread.apcDeliverPending = true → thread.left = true :=
    h.left_of_user (by rw [huser]; nofun)
  have hstays : thread.Inv → ApcThread.Inv { thread with activity := .call false } := fun h =>
    h.goes halive nofun h.queued fun hdue => .inl (hleft hdue)
  cases call with
  | testAlert =>
    refine h.goes halive nofun (fun hdue => ?_) fun _ => .inr rfl
    obtain hdue | hqueue := Bool.or_eq_true_iff.mp hdue
    · exact h.queued hdue
    · simpa using hqueue
  | «continue» testAlert =>
    refine h.goes halive nofun (fun hdue => ?_) fun hdue => ?_
    · obtain hdue | hqueue := Bool.or_eq_true_iff.mp hdue
      · exact h.queued hdue
      · simpa using (Bool.and_eq_true_iff.mp hqueue).2
    · cases testAlert with
      | true => exact .inr rfl
      | false => exact .inl (hleft (by simpa using hdue))
  | wait alertable satisfied parks =>
    rw [ApcThread.enter]
    split
    · exact hstays h
    · split
      · split
        · rename_i hpending
          refine h.goes halive nofun (fun _ => ?_) fun _ => .inr rfl
          simpa [h.exact.pending] using hpending
        · exact h.goes halive nofun h.queued fun hdue => .inl (hleft hdue)
      · split
        · exact h.goes halive nofun h.queued fun hdue => .inl (hleft hdue)
        · exact hstays h
  | other => exact hstays h

theorem ApcThread.Inv.insert (h : thread.Inv) (halive : thread.activity ≠ .terminated) (apc : UserApc) :
    (thread.insert apc).Inv := by
  have hqueued : ApcThread.Inv
      { thread with
        userApcListHead := thread.userApcListHead ++ [apc]
        userApcPending := true
        accepted := thread.accepted ++ [apc] } := by
    refine ⟨⟨?_, h.exact.alive, fun hterminated => absurd hterminated halive, h.exact.alertable, ?_⟩,
      fun _ => by simp, h.due⟩
    · rw [h.exact.once, h.exact.alive halive, append_nil, append_nil, append_assoc]
    · simp
  rw [ApcThread.insert]
  split
  · exact hqueued.goes halive nofun (fun _ => by simp) fun _ => .inr rfl
  · exact hqueued

theorem reserves_insert (thread : ApcThread) (apc : UserApc) :
    (thread.insert apc).reserves = thread.reserves ++ apc.reserveObject.toList := by
  have hqueue : (thread.insert apc).userApcListHead = thread.userApcListHead ++ [apc] := by
    rw [ApcThread.insert]
    split <;> rfl
  rw [ApcThread.reserves, ApcThread.reserves, hqueue, filterMap_append]
  cases h : apc.reserveObject <;> simp [h]

theorem ApcState.Inv.queue (h : s.Inv) (r : ApcRequest) : (pspQueueUserApc s r).1.Inv := by
  rw [pspQueueUserApc]
  split
  · split <;> exact h
  · rename_i t _
    split
    · exact h
    split
    · exact h
    split
    · exact h
    split
    · exact h
    rename_i hfree _ halive _
    refine h.update ((h.threads t).insert halive ⟨r.context, r.reserveObject⟩) ?_
    rw [reserves_insert]
    cases hr : r.reserveObject with
    | none => simpa using h.reserves
    | some reserve =>
      rw [hr] at hfree
      exact h.reserves.add (by simpa using hfree) t

theorem ApcState.Inv.ret {alertable frame : Bool} (h : s.Inv) (hcall : (s.threads t).activity = .call alertable)
    (hframe : (s.threads t).kiUserApcPending = true → frame = true)
    (hleft : alertable = false → (s.threads t).left = false) : (s.ret t alertable frame).Inv := by
  have ht := h.threads t
  have halive : (s.threads t).activity ≠ .terminated := by rw [hcall]; nofun
  -- a flag that is still set without a delivery was not set for this call
  have hstays (hdue : (s.threads t).apcDeliverPending = true) : (s.threads t).left = true ∨ alertable = true := by
    obtain hleft | hactivity := ht.due hdue
    · exact .inl hleft
    · exact .inr (ApcActivity.call.inj (hcall.symm.trans hactivity))
  rw [ApcState.ret]
  split
  · rename_i apc rest hqueue
    change (s.threads t).userApcListHead = apc :: rest at hqueue
    split
    · rename_i hdue
      have hframe : frame = true := hframe (by rw [ApcThread.kiUserApcPending, hdue, hqueue]; rfl)
      have halertable : alertable = true := by
        obtain hleft' | halertable := hstays hdue
        · cases alertable
          · exact (hleft rfl).symm.trans hleft'
          · rfl
        · exact halertable
      refine h.update ⟨⟨?_, fun _ => ht.exact.alive halive, nofun, ?_, ?_⟩, ?_, ?_⟩ ?_
      · rw [ht.exact.once, hqueue, if_pos hframe]
        simp
      · rw [if_pos hframe]
        intro delivery hmem
        obtain hmem | hmem := mem_append.mp hmem
        · exact ht.exact.alertable delivery hmem
        · rw [mem_singleton.mp hmem]
          exact halertable
      · simp [ht.exact.pending, hqueue]
      · intro hrest
        simpa using (Bool.and_eq_true_iff.mp hrest).2
      · intro hrest
        exact .inl (Bool.and_eq_true_iff.mp hrest).2
      · have hreserves : (s.threads t).reserves =
            [apc].filterMap (·.reserveObject) ++ rest.filterMap (·.reserveObject) := by
          rw [ApcThread.reserves, hqueue, ← filterMap_append]
          rfl
        have hremove := h.reserves.remove hreserves
        rwa [← foldl_kiFreeUserApc] at hremove
    · rename_i hdue
      exact h.setThread (ht.goes halive nofun ht.queued fun hdue' => absurd hdue' hdue) rfl
  · rename_i hqueue
    exact h.setThread (ht.goes halive nofun ht.queued fun hdue => absurd hqueue (ht.queued hdue)) rfl

theorem ApcState.Inv.exit (h : s.Inv) (halive : (s.threads t).activity ≠ .terminated) : (s.exit t).Inv := by
  have ht := (h.threads t).exact
  refine h.update ⟨⟨?_, fun hne => absurd rfl hne, fun _ => rfl, ht.alertable, rfl⟩, nofun, nofun⟩ ?_
  · rw [ht.once, ht.alive halive, append_nil, append_nil]
  · rw [foldl_kiFreeUserApc]
    exact h.reserves.remove (append_nil _).symm

theorem ApcState.Inv.step {event : ApcEvent} (h : s.Inv) (hmeets : s.Meets event)
    (hstep : s.step event = some s') : s'.Inv := by
  cases event with
  | queue request =>
    cases hstep
    exact h.queue request
  | enter t call =>
    obtain ⟨huser, hs'⟩ := Option.ite_none_right_eq_some.mp hstep
    cases hs'
    refine h.setThread ((h.threads t).enter huser call) ?_
    cases call with
    | wait alertable satisfied parks =>
      rw [ApcThread.enter]
      repeat' split
      all_goals rfl
    | testAlert | «continue» _ | other => rfl
  | wake t =>
    rw [ApcState.step] at hstep
    split at hstep <;> cases hstep
    rename_i hwaiting
    exact h.setThread ((h.threads t).goes (by rw [hwaiting]; nofun) nofun (h.threads t).queued fun hdue =>
      .inl ((h.threads t).left_of_user (by rw [hwaiting]; nofun) hdue)) rfl
  | alert t =>
    rw [ApcState.step] at hstep
    split at hstep <;> cases hstep
    · rename_i hwaiting
      exact h.setThread ((h.threads t).goes (by rw [hwaiting]; nofun) nofun (h.threads t).queued fun hdue =>
        .inl ((h.threads t).left_of_user (by rw [hwaiting]; nofun) hdue)) rfl
    · exact h.setThread ⟨{ (h.threads t).exact with }, (h.threads t).queued, (h.threads t).due⟩ rfl
  | ret t frame =>
    rw [ApcState.step] at hstep
    split at hstep <;> cases hstep
    rename_i alertable hcall
    exact h.ret hcall hmeets.1 fun halertable => hmeets.2 (halertable ▸ hcall)
  | exit t =>
    obtain ⟨halive, hs'⟩ := Option.ite_none_left_eq_some.mp hstep
    cases hs'
    exact h.exit halive

theorem ApcState.Inv.run {events : List ApcEvent} (h : s.Inv) (hmeets : s.RunMeets events)
    (hrun : s.run events = some s') : s'.Inv := by
  induction events generalizing s with
  | nil =>
    cases hrun
    exact h
  | cons event events ih =>
    obtain ⟨s1, hstep, hrest⟩ := Option.bind_eq_some_iff.mp hrun
    exact ih (h.step hmeets.1 hstep) (hmeets.2 s1 hstep) hrest

theorem ApcState.Initial.inv (h : s.Initial) : s.Inv := by
  refine ⟨fun t => ?_, fun reserve => ?_⟩
  · obtain ⟨alerted, ht⟩ := h.threads t
    rw [ht]
    exact ⟨⟨rfl, fun _ => rfl, nofun, nofun, rfl⟩, nofun, nofun⟩
  · rw [h.boundApc, if_neg Bool.false_ne_true]
    intro t
    obtain ⟨alerted, ht⟩ := h.threads t
    simp only [ht]
    rfl

/-- In a run in which every APC that is due gets its frame, and no call that is not alertable returns over an
APC that an earlier delivery left in the queue, delivery is exact. -/
theorem run_delivers {events : List ApcEvent} (h : s.Initial) (hmeets : s.RunMeets events)
    (hrun : s.run events = some s') : s'.Exact := by
  have hinv := h.inv.run hmeets hrun
  exact ⟨fun t => (hinv.threads t).exact, hinv.reserves⟩

end

def idleThreads : ApcState where
  threads := fun _ => ⟨[], false, false, false, .user, [], [], [], false⟩
  boundApc := fun _ => false

theorem initial_idleThreads : idleThreads.Initial := ⟨fun _ => ⟨false, rfl⟩, fun _ => rfl⟩

/-- A reserve's APC that ends a wait. -/
theorem run_delivers_wait : ∃ s, idleThreads.run [.enter 0 (.wait true false true),
    .queue ⟨some 0, some 7, true, 1, true⟩, .ret 0 true] = some s ∧ s.Exact := by
  have hmeets : idleThreads.RunMeets [.enter 0 (.wait true false true),
      .queue ⟨some 0, some 7, true, 1, true⟩, .ret 0 true] := by
    refine ⟨trivial, fun _ h => ?_⟩
    cases h
    refine ⟨trivial, fun _ h => ?_⟩
    cases h
    exact ⟨⟨fun _ => rfl, nofun⟩, fun _ _ => trivial⟩
  exact ⟨_, rfl, run_delivers initial_idleThreads hmeets rfl⟩

/-- The second of two APCs is delivered on the return of whatever the routine of the first one calls. -/
theorem run_delivers_early : ∃ s, idleThreads.run [.queue ⟨some 0, none, true, 1, true⟩,
    .queue ⟨some 0, none, true, 2, true⟩, .enter 0 .testAlert, .ret 0 true, .enter 0 .other,
    .ret 0 true] = some s ∧ ¬ s.Exact := by
  refine ⟨_, rfl, fun h => ?_⟩
  exact absurd ((h.threads 0).alertable (⟨2, none⟩, false) (by decide)) (by decide)

end Proskrnl.Ke
