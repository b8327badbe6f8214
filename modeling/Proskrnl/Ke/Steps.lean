import Proskrnl.Ke.Waits

/-!
# Steps and runs

Every step keeps the invariant, and it is stopped by an overflow or by a call that breaks the
contract of a function, if it is stopped at all (`step_ends`). So the invariant holds in every state
that a machine comes to (`Run.inv`).
-/

namespace Proskrnl.Ke
open Outcome List

section
variable {s0 s s' : KeState} {x : ObjId} {t : Tid}

/-! ## Waits -/

theorem armBlocks_nil : armBlocks t [] s = s.setThread t { s.threads t with waitBlockList := [] } := by
  simp [armBlocks]

structure TimeoutArmed (t : Tid) (s s' : KeState) : Prop where
  object : s'.objects (.timeout t) = { s.objects (.timeout t) with
    signalState := 0
    waitList := (s.objects (.timeout t)).waitList ++ [timeoutBlock t s.armings]
    dueTime := (s'.objects (.timeout t)).dueTime
    inserted := true }
  objects : ∀ x, x ≠ .timeout t → s'.objects x = s.objects x
  thread : s'.threads t =
    { s.threads t with timerWaitBlock := timeoutBlock t s.armings, timerArmed := true }
  threads : ∀ u, u ≠ t → s'.threads u = s.threads u
  timerList : s'.timerList.Perm (.timeout t :: s.timerList)
  armings : s'.armings = s.armings
  history : s'.history = s.history

theorem kiArmWaitTimeout_eq {timeout : Int64}
    (hout : (s.objects (.timeout t)).inserted = false) :
    ∃ s', kiArmWaitTimeout t timeout s = .ok s' ∧ TimeoutArmed t s s' := by
  rw [kiArmWaitTimeout]
  dsimp only
  rw [kiInsertTimer, if_neg (by simp [hout])]
  refine ⟨_, rfl, ?_⟩
  constructor
  case object => simp [timeoutBlock]
  case objects => intro x hx; simp [hx]
  case thread => simp [timeoutBlock]
  case threads => intro u hu; simp [hu]
  case timerList =>
    refine perm_middle.trans (.cons _ ?_)
    rw [takeWhile_append_dropWhile]
    rfl
  case armings => rfl
  case history => rfl

theorem park_eq {blocks : List KWaitBlock} {alertable : Bool} {timeout : Option Int64}
    (hoff : (s.threads t).timerArmed = false)
    (hout : (s.objects (.timeout t)).inserted = false)
    (hblocks : ∀ b ∈ blocks, b.object ≠ .timeout t) :
    ∃ s', (do
      let s ← armTimeout t timeout (armBlocks t blocks s)
      .ok (kiCommitWait t alertable s)) = Except.ok s' ∧
      Parked t blocks timeout.isSome s s' := by
  cases timeout with
  | none =>
    refine ⟨_, rfl, ?_⟩
    constructor
    case waitList => intro x; simp [kiCommitWait, armBlocks, armedBlocks]
    case threads => intro u hu; simp [kiCommitWait, armBlocks, hu]
    case timerWaitBlock => simp
    case timerList => exact .refl _
    all_goals simp [kiCommitWait, armBlocks, hoff]
  | some timeout =>
    have hnone : blocks.filter (fun b => b.object = .timeout t) = [] :=
      filter_eq_nil_iff.mpr fun b hb => by simpa using hblocks b hb
    obtain ⟨s1, heq, h⟩ := @kiArmWaitTimeout_eq (armBlocks t blocks s) t timeout
      (by simpa [armBlocks] using hout)
    rw [armTimeout, heq]
    refine ⟨_, rfl, ?_⟩
    -- the timeout is an object apart from those that are waited on
    have hobject (y : ObjId) (hy : y ≠ .timeout t) : s1.objects y =
        { s.objects y with
          waitList := (s.objects y).waitList ++ blocks.filter fun b => b.object = y } :=
      h.objects y hy
    obtain ⟨due, hdue⟩ : ∃ due, (s1.objects (.timeout t)).dueTime = due := ⟨_, rfl⟩
    have htimeout : s1.objects (.timeout t) = { s.objects (.timeout t) with
        signalState := 0
        waitList := (s.objects (.timeout t)).waitList ++ [timeoutBlock t s.armings]
        dueTime := due
        inserted := true } := by
      have hobject := h.object
      simp only [armBlocks, KeState.objects_setThread, hnone, append_nil, hdue] at hobject
      exact hobject
    constructor
    case waitList =>
      intro y
      by_cases hy : y = .timeout t
      · subst hy
        simp [kiCommitWait, htimeout, armedBlocks, hnone, timeoutBlock]
      · simp [kiCommitWait, hobject y hy, armedBlocks, timeoutBlock, Ne.symm hy]
    case threads =>
      intro u hu
      simp [kiCommitWait, hu, h.threads u hu, armBlocks]
    case timerWaitBlock => intro _; simp [kiCommitWait, h.thread, armBlocks]
    case timerList => simpa [kiCommitWait, armBlocks] using h.timerList
    case history => simp [kiCommitWait, h.history, armBlocks]
    case armings => simp [kiCommitWait, h.armings, armBlocks]
    case current => rfl
    case state => simp [kiCommitWait]
    case waitBlockList => simp [kiCommitWait, h.thread, armBlocks]
    case timerArmed => simp [kiCommitWait, h.thread]
    case mutantList => simp [kiCommitWait, h.thread, armBlocks]
    case taken => simp [kiCommitWait, h.thread, armBlocks]
    all_goals
      intro y
      by_cases hy : y = .timeout t
      · subst hy; simp [kiCommitWait, htimeout]
      · simp [kiCommitWait, hobject y hy, hy]

theorem ready_none : Ready none s x t ↔ kiIsSatisfiable (s.objects x) t = true := by
  simp [Ready, kiIsSatisfiable]

theorem KeInv.waitReturns {hole : Option ObjId} {busy : Option Tid} {waitType : WaitType}
    {objects : List ObjId} {status : NtStatus} (hs : KeInv s0 hole busy s)
    (hreturn : ReturnOk waitType objects status (s.threads t).taken) :
    KeInv s0 hole busy (waitReturns t waitType objects status s) :=
  KeInv.note hs rfl hreturn

theorem takeAlert_inv (hs : KeInv s0 none none s) :
    KeInv s0 none none (takeAlert t s).2 ∧ ((takeAlert t s).2.threads t).taken = (s.threads t).taken ∧
      (takeAlert t s).1 ∈ [statusTimeout, statusAlerted, statusUserApc, statusThreadIsTerminating,
        statusInvalidParameter] := by
  rw [takeAlert]
  split
  · exact ⟨hs.setThread rfl rfl rfl rfl rfl fun _ => rfl, by simp, by simp⟩
  · exact ⟨hs.setThread rfl rfl rfl rfl rfl fun _ => rfl, by simp, by simp⟩

def Unready (s : KeState) (t : Tid) (waitType : WaitType) (objects : List ObjId) : Prop :=
  match waitType with
  | .waitAny => ∀ x ∈ objects, kiIsSatisfiable (s.objects x) t = false
  | .waitAll => ∃ x ∈ objects, kiIsSatisfiable (s.objects x) t = false

theorem parkable {waitType : WaitType} {ws : List Waitable} (hlen : ws.length ≤ 64)
    (hnodup : waitType = .waitAll → ws.Nodup)
    (hunready : Unready s t waitType (ws.map .waitable)) :
    Parkable t (waitBlocks t waitType s.armings 0 (ws.map .waitable)) s where
  form := ⟨waitType, s.armings, ws, rfl, hlen, hnodup⟩
  arming b hb := (mem_waitBlocks hb).2.2.1
  ordered := pairwise_waitBlocks
  unready b hb := by
    obtain ⟨-, htype, -, hobject, -, -⟩ := mem_waitBlocks hb
    rintro ⟨hready, hall⟩
    rw [ready_none] at hready
    cases waitType with
    | waitAny =>
      rw [hunready _ hobject] at hready
      cases hready
    | waitAll =>
      obtain ⟨x, hx, hnot⟩ := hunready
      rw [← @map_object_waitBlocks t .waitAll s.armings 0 (ws.map .waitable)] at hx
      obtain ⟨c, hc, rfl⟩ := List.mem_map.mp hx
      have hsat := ready_none.mp (hall htype c hc)
      rw [hnot] at hsat
      cases hsat

theorem waitOrPark_ends (h0 : Initial s0) (hs : KeInv s0 none none s) (ht : s.current = some t)
    (htaken : (s.threads t).taken = []) {waitType : WaitType} {ws : List Waitable}
    {alertable : Bool} {timeout : Option Int64} (hlen : ws.length ≤ 64)
    (hnodup : waitType = .waitAll → ws.Nodup)
    (hunready : Unready s t waitType (ws.map .waitable)) :
    Ends Halt.external (waitOrPark t (ws.map .waitable) waitType alertable timeout s)
      (KeInv s0 none none) := by
  have hrunning := (hs.waits.running t).mp ht
  rw [waitOrPark]
  refine Ends.ite (fun _ => ?_) fun _ => ?_
  · obtain ⟨hinv, htaken', hstatus⟩ := @takeAlert_inv s0 s t hs
    exact hinv.waitReturns (.inl ⟨htaken'.trans htaken, hstatus⟩)
  refine Ends.ite (fun _ => hs.waitReturns (.inl ⟨htaken, mem_cons_self ..⟩)) fun _ => ?_
  have hoff := (hs.waits.idle t (by rw [hrunning]; nofun)).2
  have hout : (s.objects (.timeout t)).inserted = false := by
    by_contra h
    rw [hs.waits.timeouts t (by simpa using h)] at hoff
    cases hoff
  have hp := parkable hlen hnodup hunready
  obtain ⟨s', heq, hparked⟩ := @park_eq s t _ alertable timeout hoff hout fun b hb h => by
    obtain ⟨-, ⟨w, hw⟩, -⟩ := hp.form.mem hb
    rw [h] at hw
    cases hw
  exact (show Ends Halt.external _ _ from heq ▸ hs.park h0 hrunning htaken hp hparked)

theorem firstSatisfiable_some {i key : Nat} {objects : List ObjId}
    (h : firstSatisfiable s t key objects = some (i, x)) :
    key ≤ i ∧ objects[i - key]? = some x ∧ kiIsSatisfiable (s.objects x) t = true := by
  induction objects generalizing key with
  | nil => cases h
  | cons y rest ih =>
    rw [firstSatisfiable] at h
    split at h
    · rename_i hsat
      cases h
      exact ⟨le_rfl, by simp, hsat⟩
    · obtain ⟨hle, hget, hsat⟩ := ih h
      refine ⟨by omega, ?_, hsat⟩
      rw [show i - key = (i - (key + 1)) + 1 by omega]
      exact hget

theorem firstSatisfiable_none {key : Nat} {objects : List ObjId}
    (h : firstSatisfiable s t key objects = none) :
    ∀ x ∈ objects, kiIsSatisfiable (s.objects x) t = false := by
  induction objects generalizing key with
  | nil => nofun
  | cons y rest ih =>
    rw [firstSatisfiable] at h
    split at h
    · cases h
    · rename_i hsat
      exact forall_mem_cons.mpr ⟨by simpa using hsat, ih h⟩

theorem keWaitForMultipleObjects_ends (h0 : Initial s0) (hs : KeInv s0 none none s)
    (ht : s.current = some t) {ws : List Waitable} {waitType : WaitType} {array alertable : Bool}
    {timeout : Option Int64} :
    Ends Halt.external
      (keWaitForMultipleObjects t (ws.map .waitable) waitType array alertable timeout s)
      (KeInv s0 none none) := by
  have hrunning := (hs.waits.running t).mp ht
  have hinv : KeInv s0 none none (s.setThread t { s.threads t with taken := [] }) :=
    hs.setThread rfl rfl rfl rfl rfl fun h => by rw [hrunning] at h; cases h
  unfold keWaitForMultipleObjects
  dsimp only
  generalize hs1 : s.setThread t { s.threads t with taken := [] } = s1 at *
  have htaken : (s1.threads t).taken = [] := by rw [← hs1]; simp
  have hcurrent : s1.current = some t := by rw [← hs1]; exact ht
  have hserved : Served none s1 t := .inl ((hinv.waits.running t).mp hcurrent)
  refine Ends.ite (fun _ => trivial) fun hcount => ?_
  refine Ends.ite (fun _ => trivial) fun _ => ?_
  refine Ends.ite (fun _ => hinv.waitReturns (.inl ⟨htaken, by simp⟩)) fun hdistinct => ?_
  refine Ends.ite (fun _ => hinv.waitReturns (.inl ⟨htaken, by simp⟩)) fun _ => ?_
  rw [length_map] at hcount
  have hlen : ws.length ≤ 64 := by omega
  cases waitType with
  | waitAny =>
    dsimp only
    cases hfirst : firstSatisfiable s1 t 0 (ws.map .waitable) with
    | none =>
      exact waitOrPark_ends h0 hinv hcurrent htaken hlen nofun (firstSatisfiable_none hfirst)
    | some r =>
      obtain ⟨i, x⟩ := r
      obtain ⟨-, hget, hsat⟩ := firstSatisfiable_some hfirst
      rw [Nat.sub_zero] at hget
      obtain ⟨w, -, rfl⟩ := List.mem_map.mp (mem_of_getElem? hget)
      refine (kiSatisfyObject_waitable hinv hsat hserved).bind ?_
      rintro ⟨wasAbandoned, s2⟩ ⟨hs2, hstep⟩
      refine Ends.ok (hs2.waitReturns (.inr ⟨i, .waitable w, wasAbandoned, ?_, hget, ?_, rfl⟩))
      · have := (List.getElem?_eq_some_iff.mp hget).1
        rw [length_map] at this
        omega
      · rw [hstep.taken, htaken, nil_append]
  | waitAll =>
    have hnodup : (ws.map ObjId.waitable).Nodup := by simpa using hdistinct
    dsimp only
    refine Ends.ite (fun hall => ?_) fun hnot => ?_
    · refine (satisfyAll_ends hinv hnodup (fun x hx => ?_) (List.all_eq_true.mp hall)
        hserved).bind ?_
      · obtain ⟨w, -, rfl⟩ := List.mem_map.mp hx
        exact ⟨w, rfl⟩
      · rintro ⟨status, s2⟩ ⟨hs2, -, -, -, new, hnew, htaken2, hstatus⟩
        refine Ends.ok (hs2.waitReturns (.inr ?_))
        rw [htaken2, htaken, nil_append]
        refine ⟨hnew, ?_⟩
        rw [show (statusSuccess == statusSuccess) = true from rfl, Bool.and_true] at hstatus
        exact hstatus
    · refine waitOrPark_ends h0 hinv hcurrent htaken hlen (fun _ => Nodup.of_map _ hnodup) ?_
      simpa [Unready] using hnot

theorem keDelayExecutionThread_ends (h0 : Initial s0) (hs : KeInv s0 none none s)
    (ht : s.current = some t) {alertable : Bool} {interval : Int64} :
    Ends Halt.external (keDelayExecutionThread t alertable interval s) (KeInv s0 none none) := by
  have hrunning := (hs.waits.running t).mp ht
  have hinv : KeInv s0 none none (s.setThread t { s.threads t with taken := [] }) :=
    hs.setThread rfl rfl rfl rfl rfl fun h => by rw [hrunning] at h; cases h
  rw [keDelayExecutionThread]
  dsimp only
  generalize hs1 : s.setThread t { s.threads t with taken := [] } = s1 at *
  have htaken : (s1.threads t).taken = [] := by rw [← hs1]; simp
  have hcurrent : s1.current = some t := by rw [← hs1]; exact ht
  have hrunning1 := (hinv.waits.running t).mp hcurrent
  refine Ends.ite (fun _ => hinv.waitReturns (.inl ⟨htaken, by simp⟩)) fun _ => ?_
  refine Ends.ite (fun _ => ?_) fun _ => ?_
  · obtain ⟨hinv', htaken', hstatus⟩ := @takeAlert_inv s0 s1 t hinv
    exact hinv'.waitReturns (.inl ⟨htaken'.trans htaken, hstatus⟩)
  refine Ends.ite (fun _ => kiYield_ends hinv hcurrent) fun _ => ?_
  have hoff := (hinv.waits.idle t (by rw [hrunning1]; nofun)).2
  have hout : (s1.objects (.timeout t)).inserted = false := by
    by_contra h
    rw [hinv.waits.timeouts t (by simpa using h)] at hoff
    cases hoff
  obtain ⟨s', heq, hparked⟩ := @park_eq s1 t [] alertable (some interval) hoff hout nofun
  rw [armBlocks_nil] at heq
  exact (show Ends Halt.external _ _ from
    heq ▸ hinv.park h0 hrunning1 htaken ⟨.nil, nofun, .nil, nofun⟩ hparked)

/-! ## APCs, alerts and termination -/

section
variable (hs : KeInv s0 none none s)
include hs

theorem kiInsertQueueUserApc_ends {routine : Bool} :
    Ends Halt.external (kiInsertQueueUserApc t routine s) (KeInv s0 none none) := by
  rw [kiInsertQueueUserApc]
  dsimp only
  refine Ends.ite (fun _ => hs) fun _ => ?_
  refine Ends.ite (fun hwaiting => ?_) fun _ => ?_
  · refine Ends.mono (kiUnwaitThread_ends ?_ ?_ ?_) fun _ h => h.1
    · exact hs.setThread rfl rfl rfl rfl rfl fun _ => rfl
    · simpa using hwaiting.1
    · simp
  · exact hs.setThread rfl rfl rfl rfl rfl fun _ => rfl

theorem pspAlertTcbLocked_ends :
    Ends Halt.external (pspAlertTcbLocked t s) (KeInv s0 none none) := by
  rw [pspAlertTcbLocked]
  refine Ends.ite (fun hwaiting => ?_) fun _ => ?_
  · refine Ends.mono (kiUnwaitThread_ends ?_ ?_ ?_) fun _ h => h.1
    · exact hs.setThread rfl rfl rfl rfl rfl fun _ => rfl
    · simpa using hwaiting.1
    · simp
  · exact hs.setThread rfl rfl rfl rfl rfl fun _ => rfl

theorem kiDeliverUserApc_inv :
    KeInv s0 none none (kiDeliverUserApc t s) := by
  rw [kiDeliverUserApc]
  split
  · exact hs.setThread rfl rfl rfl rfl rfl fun _ => rfl
  split
  · exact hs.setThread rfl rfl rfl rfl rfl fun _ => rfl
  · exact hs.setThread rfl rfl rfl rfl rfl fun _ => rfl

theorem kiAbortThreadWait_ends :
    Ends Halt.external (kiAbortThreadWait t s) (KeInv s0 none none) := by
  rw [kiAbortThreadWait]
  refine Ends.ite (fun _ => trivial) fun _ => ?_
  refine Ends.ite (fun _ => hs) fun _ => ?_
  refine Ends.ite (fun hwaiting => ?_) fun _ => hs
  exact (kiUnwaitThread_ends hs hwaiting (by simp)).mono fun _ h => h.1

end

section
variable (h0 : Initial s0) (hs : KeInv s0 none none s)
include h0 hs

theorem gate_type :
    (s.objects (.waitable (.gate t))).type = .notificationEvent := by
  rw [hs.types, h0.gates]; rfl

theorem signal_gate_ends :
    Ends Halt.external (signal (.waitable (.gate t)) s) (KeInv s0 none none) :=
  (signal_ends h0 hs (by rw [gate_type h0 hs]; nofun) (by rw [gate_type h0 hs]; nofun)).mono
    fun _ h => h.1

theorem pspFlagThreadTermination_ends :
    Ends Halt.external (pspFlagThreadTermination t s) (KeInv s0 none none) := by
  rw [pspFlagThreadTermination]
  have hinv : KeInv s0 none none (s.setThread t
      { s.threads t with terminating := true, suspendCount := 0 }) :=
    hs.setThread rfl rfl rfl rfl rfl fun _ => rfl
  refine (signal_gate_ends h0 hinv).bind fun s1 hs1 => ?_
  refine Ends.ite (fun _ => kiAbortThreadWait_ends hs1) fun _ => ?_
  exact Ends.ite (kiReadyThread_initialized hs1) fun _ => hs1

theorem pspSuspendTcb_ends :
    Ends Halt.external (pspSuspendTcb t s) (KeInv s0 none none) := by
  rw [pspSuspendTcb]
  refine Ends.ite (fun _ => trivial) fun _ => ?_
  have hinv : KeInv s0 none none (s.setThread t
      { s.threads t with suspendCount := (s.threads t).suspendCount + 1 }) :=
    hs.setThread rfl rfl rfl rfl rfl fun _ => rfl
  refine Ends.ite (fun _ => ?_) fun _ => hinv
  exact hinv.clear (by rw [gate_type h0 hinv]; nofun) (by rw [gate_type h0 hinv]; nofun)

theorem pspResumeTcb_ends :
    Ends Halt.external (pspResumeTcb t s) (KeInv s0 none none) := by
  rw [pspResumeTcb]
  have hinv : KeInv s0 none none (s.setThread t
      { s.threads t with suspendCount := (s.threads t).suspendCount - 1 }) :=
    hs.setThread rfl rfl rfl rfl rfl fun _ => rfl
  refine Ends.ite (fun _ => ?_) fun _ => hs
  refine Ends.ite (fun _ => ?_) fun _ => hinv
  refine (signal_gate_ends h0 hinv).bind fun s1 hs1 => ?_
  exact Ends.ite (kiReadyThread_initialized hs1) fun _ => hs1

theorem signalExit_ends :
    Ends Halt.external (signalExit x s) (KeInv s0 none none) := by
  rw [signalExit]
  refine Ends.ite (fun htype => ?_) fun _ => trivial
  refine (signal_ends h0 hs ?_ ?_).mono fun _ h => h.1
  · rcases htype with h | h <;> rw [h] <;> nofun
  · rcases htype with h | h <;> rw [h] <;> nofun

end

/-! ## Steps -/

theorem KeInv.dispatch (hs : KeInv s0 none none s) (hidle : s.current = none)
    (hready : (s.threads t).state = .ready) :
    KeInv s0 none none { s.setThread t { s.threads t with
      state := .running, waitAlertable := false } with current := some t } := by
  refine hs.restate (by rw [hready]; nofun) (by nofun) rfl rfl rfl nofun fun u => ?_
  rw [KeState.threads_setThread]
  split
  · rename_i h
    exact ⟨fun _ => rfl, fun _ => by rw [h]⟩
  · rename_i h
    rw [← hs.waits.running, hidle]
    exact ⟨fun heq => absurd (Option.some.inj heq).symm h, nofun⟩

theorem byCurrent_ends {call : Tid → Except Halt KeState} (hs : KeInv s0 none none s)
    (hcall : ∀ t, s.current = some t → Ends Halt.external (call t) (KeInv s0 none none)) :
    Ends Halt.external (byCurrent s call) (KeInv s0 none none) := by
  rw [byCurrent]
  split
  · exact hs
  · rename_i t ht
    exact hcall t ht

theorem step_ends (h0 : Initial s0) (hs : KeInv s0 none none s) (op : Op) :
    Ends Halt.external (step op s) (KeInv s0 none none) := by
  cases op with
  | wait objects waitType array alertable timeout =>
    exact byCurrent_ends hs fun t ht => keWaitForMultipleObjects_ends h0 hs ht
  | delay alertable interval =>
    exact byCurrent_ends hs fun t ht => keDelayExecutionThread_ends h0 hs ht
  | setEvent w => exact keSetEvent_ends h0 hs
  | resetEvent w => exact keResetEvent_ends hs
  | pulseEvent w => exact kiPulseEvent_ends h0 hs
  | releaseSemaphore w count => exact keReleaseSemaphore_ends h0 hs
  | releaseMutex w => exact kiReleaseMutant_ends h0 hs
  | deleteMutant w => exact obpDeleteMutant_ends hs
  | setTimer w dueTime period => exact keSetTimerEx_ends hs
  | cancelTimer w => exact (keCancelTimer_ends hs).mono fun _ h => h.1
  | tick ticks rounds => exact kiUpdateClock_ends h0 hs
  | queueApc t routine => exact kiInsertQueueUserApc_ends hs
  | alert t => exact pspAlertTcbLocked_ends hs
  | testAlert =>
    exact byCurrent_ends hs fun t _ => hs.setThread rfl rfl rfl rfl rfl fun _ => rfl
  | deliverApc => exact byCurrent_ends hs fun t _ => kiDeliverUserApc_inv hs
  | rundown on =>
    exact byCurrent_ends hs fun t _ => hs.setThread rfl rfl rfl rfl rfl fun _ => rfl
  | flagTermination t => exact pspFlagThreadTermination_ends h0 hs
  | abortWait t => exact kiAbortThreadWait_ends hs
  | suspend t => exact pspSuspendTcb_ends h0 hs
  | resume t => exact pspResumeTcb_ends h0 hs
  | signalExit w => exact signalExit_ends h0 hs
  | terminate =>
    exact byCurrent_ends hs fun t ht => (kiTerminateThread_ends h0 hs ht).mono fun _ h => h.1
  | yield => exact byCurrent_ends hs fun t ht => kiYield_ends hs ht
  | readyCreated t => exact Ends.ite (kiReadyThread_initialized hs) fun _ => hs
  | dispatch t => exact Ends.ite (fun h => hs.dispatch h.1 h.2) fun _ => hs

end

/-! ## Runs -/

theorem Fresh.unused {o : KObject} (h : Fresh o) :
    o.waitList = [] ∧ o.inserted = false ∧ o.ownerThread = none := by
  cases h with
  | event notification state => exact ⟨rfl, rfl, rfl⟩
  | semaphore hlimit ho =>
    rw [keInitializeSemaphore] at ho
    split at ho
    · cases ho
    · cases ho; exact ⟨rfl, rfl, rfl⟩
  | mutex => exact ⟨rfl, rfl, rfl⟩
  | timer notification => exact ⟨rfl, rfl, rfl⟩
  | thread => exact ⟨rfl, rfl, rfl⟩
  | process => exact ⟨rfl, rfl, rfl⟩

theorem Initial.fresh {s0 : KeState} (h0 : Initial s0) (x : ObjId) : Fresh (s0.objects x) := by
  cases x with
  | waitable w =>
    cases w with
    | body n => exact h0.bodies n
    | thread t => rw [h0.headers]; exact .thread
    | gate t => rw [h0.gates]; exact .event true true
  | timeout t => rw [h0.timeouts]; exact .timer true

theorem Initial.inv {s0 : KeState} (h0 : Initial s0) : KeInv s0 none none s0 := by
  have hthread (t : Tid) : (s0.threads t).state = .initialized ∧
      (s0.threads t).waitBlockList = [] ∧ (s0.threads t).timerArmed = false ∧
      (s0.threads t).mutantList = [] ∧ (s0.threads t).taken = [] := by
    obtain ⟨block, isUser, h⟩ := h0.threads t
    rw [h]
    exact ⟨rfl, rfl, rfl, rfl, rfl⟩
  have harmed (b : KWaitBlock) : ¬ Armed s0 b := fun h => by
    rw [Armed, (hthread _).1] at h
    cases h.1
  have hlist (x : ObjId) := (h0.fresh x).unused.1
  have hins (x : ObjId) := (h0.fresh x).unused.2.1
  exact
    { waits :=
        { listed := fun x b => by
            rw [hlist]
            exact ⟨by simp, fun h => absurd h.2 (harmed b)⟩
          ordered := fun x => by rw [hlist]; exact .nil
          recent := fun x => by rw [hlist]; simp
          idle := fun t _ => ⟨(hthread t).2.1, (hthread t).2.2.1⟩
          form := fun t => by rw [(hthread t).2.1]; exact .nil
          timer := fun t h => by rw [(hthread t).2.2.1] at h; cases h
          inserted := fun x => by rw [hins, h0.timerList]; exact ⟨by simp, by simp⟩
          timers := by rw [h0.timerList]; exact .nil
          timeouts := fun t h => by rw [hins] at h; cases h
          running := fun t => by rw [h0.current, (hthread t).1]; exact ⟨by simp, by simp⟩ }
      types := fun _ => rfl
      timed := fun x h => by rw [hins] at h; cases h
      limits := fun _ _ => rfl
      balanced := fun x => by rw [h0.history]; exact (h0.fresh x).balanced
      owners := fun x t => by
        rw [(hthread t).2.2.2.1, (h0.fresh x).unused.2.2]
        exact ⟨by simp, by simp⟩
      mutants := fun t => by rw [(hthread t).2.2.2.1]; exact .nil
      exited := fun t _ => (hthread t).2.2.2.1
      quiet := fun b hb => absurd hb (harmed b)
      taken := fun t _ _ => (hthread t).2.2.2.2
      events := by rw [h0.history]; simp }

theorem Run.inv {s0 s : KeState} (h0 : Initial s0) (h : Run s0 s) : KeInv s0 none none s := by
  induction h with
  | refl => exact h0.inv
  | step _ hstep ih => exact (step_ends h0 ih _).of_ok hstep

end Proskrnl.Ke
