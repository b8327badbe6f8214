import Proskrnl.Ke.Steps

/-!
# What the dispatcher guarantees

The results about every state that a machine comes to: no wakeup is lost, signals are consumed
exactly, and a mutant has the owner its lists name.
-/

namespace Proskrnl.Ke
open Outcome

section
variable {s₀ s : KeState} {t : Tid} {x : ObjId}

def sampleMachine : KeState where
  objects
    | .waitable (.body 0) => keInitializeMutex
    | .waitable (.body 1) => { type := .semaphore, signalState := 1, limit := 2 }
    | .waitable (.body _) => keInitializeEvent false false
    | .waitable (.thread _) => { type := .thread }
    | .waitable (.gate _) => keInitializeEvent true true
    | .timeout _ => keInitializeTimerEx true
  threads t := { timerWaitBlock := ⟨t, .timeout t, 0, .waitAny, 0⟩, isUser := true }

theorem sampleMachine_initial : Initial sampleMachine where
  bodies
    | 0 => .mutex
    | 1 => .semaphore (by decide : (2 : Int) ≤ longMax) (rfl : keInitializeSemaphore 1 2 = .ok _)
    | _ + 2 => .event false false
  headers _ := rfl
  gates _ := rfl
  timeouts _ := rfl
  threads _ := ⟨_, _, rfl⟩
  timerList := rfl
  current := rfl
  history := rfl

def runOps : List Op → KeState → Except Halt KeState
  | [], s => .ok s
  | op :: ops, s => do
    let s ← step op s
    runOps ops s

theorem Run.ofOps {ops : List Op} {s' : KeState} (hs : Run s₀ s) (h : runOps ops s = .ok s') :
    Run s₀ s' := by
  induction ops generalizing s with
  | nil =>
    cases h
    exact hs
  | cons op ops ih =>
    rw [runOps] at h
    cases hstep : Ke.step op s with
    | error e =>
      rw [hstep] at h
      cases h
    | ok s₁ =>
      rw [hstep] at h
      exact ih (hs.step hstep) h

/-- Thread 0 takes the mutant, and again with the semaphore; thread 1 waits for the mutant. -/
def sampleOps : List Op :=
  [.readyCreated 0, .readyCreated 1, .dispatch 0, .wait [.body 0] .waitAny false false none,
    .wait [.body 0, .body 1] .waitAll false false none, .yield, .dispatch 1,
    .wait [.body 0, .body 2] .waitAny false true (some (-5))]

/-! ## Wakeups -/

theorem not_satisfiable (h : ¬ Ready none s x t) : kiIsSatisfiable (s.objects x) t = false := by
  rw [ready_none] at h
  exact Bool.eq_false_iff.mpr h

section
variable (hs : KeInv s₀ none none s) (hwaiting : (s.threads t).state = .waiting)
include hs hwaiting

theorem KeInv.waitAny_quiet
    (htype : (s.threads t).waitTypeOf = .waitAny) (hx : x ∈ (s.threads t).waitObjects) :
    kiIsSatisfiable (s.objects x) t = false := by
  obtain ⟨b, hb, rfl⟩ := List.mem_map.mp hx
  have hform := hs.waits.form t
  obtain ⟨rfl, -⟩ := hform.mem hb
  rw [hform.waitTypeOf rfl hb] at htype
  refine not_satisfiable fun hready => hs.quiet b ⟨hwaiting, .inl hb⟩ nofun ⟨hready, ?_⟩
  rw [htype]
  nofun

theorem KeInv.waitAll_quiet
    (htype : (s.threads t).waitTypeOf = .waitAll) : kiIsWaitAllSatisfiable s t = false := by
  have hform := hs.waits.form t
  refine Bool.eq_false_iff.mpr fun hall => ?_
  rw [kiIsWaitAllSatisfiable, List.all_eq_true] at hall
  cases hlist : (s.threads t).waitBlockList with
  | nil =>
    rw [KThread.waitTypeOf, hlist] at htype
    cases htype
  | cons b rest =>
    have hb : b ∈ (s.threads t).waitBlockList := by rw [hlist]; exact List.mem_cons_self ..
    obtain ⟨rfl, -⟩ := hform.mem hb
    refine hs.quiet b ⟨hwaiting, .inl hb⟩ (by simp) ⟨ready_none.mpr (hall b hb), fun _ c hc => ?_⟩
    exact ready_none.mpr (hall c hc)

theorem KeInv.timeout_quiet
    (harmed : (s.threads t).timerArmed = true) :
    kiIsSatisfiable (s.objects (.timeout t)) t = false := by
  obtain ⟨arming, hblock⟩ := hs.waits.timer t harmed
  refine not_satisfiable fun hready => ?_
  exact hs.quiet ⟨t, .timeout t, statusTimeout.toNat, .waitAny, arming⟩
    ⟨hwaiting, .inr ⟨harmed, hblock.symm⟩⟩ nofun ⟨hready, nofun⟩

end

theorem WaitInv.count (hs : WaitInv s) {b : KWaitBlock} (hb : Armed s b) :
    (s.objects b.object).waitList.count b = 1 := by
  have hnodup : (s.objects b.object).waitList.Nodup := by
    refine (hs.ordered b.object).imp ?_
    rintro c _ hearlier rfl
    rcases hearlier with h | h
    · exact lt_irrefl _ h
    · exact lt_irrefl _ h.2
  exact List.count_eq_one_of_mem hnodup ((hs.listed _ _).mpr ⟨rfl, hb⟩)

/-- Whenever the lock is free, no thread waits for what it could take, the wait lists hold the blocks
of the waiting threads, and no step is caught in the loop of `KiWaitTest`. -/
theorem no_lost_wakeup (h₀ : Initial s₀) (h : Run s₀ s) :
    (∀ t, (s.threads t).state = .waiting →
      ((s.threads t).waitTypeOf = .waitAny → ∀ x ∈ (s.threads t).waitObjects,
        kiIsSatisfiable (s.objects x) t = false) ∧
      ((s.threads t).waitTypeOf = .waitAll → kiIsWaitAllSatisfiable s t = false) ∧
      ((s.threads t).timerArmed = true → kiIsSatisfiable (s.objects (.timeout t)) t = false)) ∧
    (∀ x, ∀ b ∈ (s.objects x).waitList, b.object = x ∧ Armed s b) ∧
    (∀ b, Armed s b → (s.objects b.object).waitList.count b = 1) ∧
    ∀ op, step op s ≠ .error .unfinished := by
  have hs := h.inv h₀
  refine ⟨fun t hwaiting => ⟨?_, ?_, ?_⟩, fun x b => (hs.waits.listed x b).mp, fun b => hs.waits.count,
    fun op hop => (step_ends h₀ hs op).of_error hop⟩
  · exact fun htype x => hs.waitAny_quiet hwaiting htype
  · exact hs.waitAll_quiet hwaiting
  · exact hs.timeout_quiet hwaiting

theorem no_lost_wakeup_sample : ∃ s, runOps sampleOps sampleMachine = .ok s ∧
    (s.threads 1).state = .waiting ∧
    kiIsSatisfiable (s.objects (.waitable (.body 0))) 1 = false := by
  obtain ⟨s, hs, hwaiting, htype, hmem⟩ : ∃ s, runOps sampleOps sampleMachine = .ok s ∧
      (s.threads 1).state = .waiting ∧ (s.threads 1).waitTypeOf = .waitAny ∧
      .waitable (.body 0) ∈ (s.threads 1).waitObjects := ⟨_, rfl, rfl, rfl, by decide⟩
  have hquiet := (no_lost_wakeup sampleMachine_initial (Run.refl.ofOps hs)).1 1 hwaiting
  exact ⟨s, hs, hwaiting, hquiet.1 htype _ hmem⟩

/-! ## Consumption -/

theorem KeInv.oncePerSignal (hs : KeInv s₀ none none s)
    (htype : (s₀.objects x).type = .synchronizationEvent ∨
      (s₀.objects x).type = .synchronizationTimer) :
    OncePerSignal x (decide (0 < (s₀.objects x).signalState)) s.history := by
  have hb := hs.balanced x
  rw [Balanced, hs.types x] at hb
  rcases htype with htype | htype
  · rw [htype] at hb
    exact hb.2
  · rw [htype] at hb
    exact hb.2

theorem KeInv.semaphore (hs : KeInv s₀ none none s) (htype : (s₀.objects x).type = .semaphore) :
    0 ≤ (s.objects x).signalState ∧ (s.objects x).signalState ≤ (s₀.objects x).limit ∧
      (s₀.objects x).signalState + releasedCount x s.history =
        completedWaits x s.history + (s.objects x).signalState := by
  have hb := hs.balanced x
  rw [Balanced, hs.types x, htype] at hb
  obtain ⟨hnonneg, hlimit, -, hsum⟩ := hb
  rw [hs.limits x htype] at hlimit
  exact ⟨hnonneg, hlimit, hsum⟩

/-- The statuses of a wait that did not come to its objects. -/
def interrupted : List NtStatus :=
  [statusTimeout, statusAlerted, statusUserApc, statusThreadIsTerminating]

theorem index_not_interrupted {i : Nat} (hi : i < 64) (wasAbandoned : Bool) :
    (if wasAbandoned then statusAbandonedWait0 + UInt32.ofNat i else UInt32.ofNat i) ∉
      interrupted := by
  have hsmall : ∀ j : Fin 64, UInt32.ofNat j.val ∉ interrupted ∧
      statusAbandonedWait0 + UInt32.ofNat j.val ∉ interrupted := by decide
  cases wasAbandoned with
  | false => exact (hsmall ⟨i, hi⟩).1
  | true => exact (hsmall ⟨i, hi⟩).2

theorem ReturnOk.taken {waitType : WaitType} {objects : List ObjId} {status : NtStatus}
    {taken : List (ObjId × Bool)} (h : ReturnOk waitType objects status taken) :
    (waitType = .waitAll → taken = [] ∨ taken.map Prod.fst = objects) ∧
      (status ∈ interrupted → taken = []) := by
  rcases h with ⟨hnil, -⟩ | h
  · exact ⟨fun _ => .inl hnil, fun _ => hnil⟩
  · cases waitType with
    | waitAny =>
      obtain ⟨i, x, wasAbandoned, hi, -, -, rfl⟩ := h
      exact ⟨nofun, fun hstatus => absurd hstatus (index_not_interrupted hi wasAbandoned)⟩
    | waitAll =>
      obtain ⟨hall, rfl⟩ := h
      refine ⟨fun _ => .inr hall, fun hstatus => absurd hstatus ?_⟩
      split <;> decide

/-- Signals are consumed exactly: by one wait each, by a balance of counts, by all objects of a
wait-all or by none, in the order of the queue. -/
theorem signals_consumed_exactly (h₀ : Initial s₀) (h : Run s₀ s) :
    (∀ x, (s₀.objects x).type = .synchronizationEvent ∨
      (s₀.objects x).type = .synchronizationTimer →
        OncePerSignal x (decide (0 < (s₀.objects x).signalState)) s.history) ∧
    (∀ x, (s₀.objects x).type = .semaphore →
      0 ≤ (s.objects x).signalState ∧ (s.objects x).signalState ≤ (s₀.objects x).limit ∧
        (s₀.objects x).signalState + releasedCount x s.history =
          completedWaits x s.history + (s.objects x).signalState) ∧
    (∀ t waitType objects status taken,
      .returned t waitType objects status taken ∈ s.history →
        (waitType = .waitAll → taken = [] ∨ taken.map Prod.fst = objects) ∧
        (status ∈ interrupted → taken = [])) ∧
    (∀ t, (s.threads t).state = .waiting → (s.threads t).taken = []) ∧
    (∀ x, (s.objects x).waitList.Pairwise Earlier) ∧
    (∀ arming eligible, .woke arming eligible ∈ s.history → ∀ a ∈ eligible, arming ≤ a) ∧
    ∀ op, step op s ≠ .error (.assertion .semaphoreCount) := by
  have hs := h.inv h₀
  refine ⟨fun x => hs.oncePerSignal, fun x => hs.semaphore, fun t waitType objects status taken he => ?_,
    fun t hwaiting => hs.taken t hwaiting nofun, hs.waits.ordered, fun arming eligible he => ?_,
    fun op hop => (step_ends h₀ hs op).of_error hop⟩
  · exact ReturnOk.taken (hs.events _ he)
  · exact hs.events _ he

theorem signals_consumed_exactly_sample : ∃ s, runOps sampleOps sampleMachine = .ok s ∧
    (s.objects (.waitable (.body 1))).signalState = 0 ∧
    1 + releasedCount (.waitable (.body 1)) s.history =
      completedWaits (.waitable (.body 1)) s.history + 0 := by
  obtain ⟨s, hs, hzero⟩ : ∃ s, runOps sampleOps sampleMachine = .ok s ∧
      (s.objects (.waitable (.body 1))).signalState = 0 := ⟨_, rfl, rfl⟩
  have hsemaphores := (signals_consumed_exactly sampleMachine_initial (Run.refl.ofOps hs)).2.1
  have hsum := (hsemaphores (.waitable (.body 1)) rfl).2.2
  rw [hzero] at hsum
  exact ⟨s, hs, hzero, hsum⟩

/-! ## Mutants -/

/-- The owner of a mutant, its list and its signal state agree. -/
structure Owned (x : ObjId) (s : KeState) : Prop where
  unique : ∀ t u, x ∈ (s.threads t).mutantList → x ∈ (s.threads u).mutantList → t = u
  listed : ∀ t, (s.objects x).ownerThread = some t ↔ x ∈ (s.threads t).mutantList
  once : ∀ t, (s.threads t).mutantList.count x ≤ 1
  recursion : ∀ t, (s.objects x).ownerThread = some t →
    (s.objects x).signalState = 1 - held x t s.history
  free : (s.objects x).signalState = 1 ↔ (s.objects x).ownerThread = none

theorem KeInv.owned (hs : KeInv s₀ none none s) (htype : (s₀.objects x).type = .mutant) :
    Owned x s := by
  rw [← hs.types x] at htype
  have hlisted (t : Tid) : (s.objects x).ownerThread = some t ↔ x ∈ (s.threads t).mutantList := by
    rw [hs.owners x t]
    exact ⟨fun h => ⟨htype, h⟩, fun h => h.2⟩
  have hb := hs.balanced x
  refine ⟨fun t u ht hu => ?_, hlisted, fun t => ?_, fun t ht => (hb.owned htype ht).1, fun hone => ?_,
    hb.unowned htype⟩
  · rw [← hlisted] at ht hu
    exact Option.some.inj (ht.symm.trans hu)
  · exact List.nodup_iff_count_le_one.mp (hs.mutants t) x
  · exact hb.owner_eq_none htype (by rw [hone]; decide)

theorem KeInv.reportedOnce (hs : KeInv s₀ none none s) (htype : (s₀.objects x).type = .mutant) :
    ReportedOnce x s.history := by
  have hb := hs.balanced x
  rw [Balanced, hs.types x, htype] at hb
  exact hb.2.2.2.2

theorem KeInv.deleted {s' : KeState} (hs : KeInv s₀ none none s)
    (hop : obpDeleteMutant x s = .ok s') (hlist : (s.objects x).waitList = []) :
    x ∉ (s'.threads t).mutantList := by
  have hs' := (obpDeleteMutant_ends hs).of_ok hop
  rw [obpDeleteMutant] at hop
  split at hop
  · cases hop
  rw [if_neg (by simp [hlist])] at hop
  cases hop
  intro hmem
  have howner := ((hs'.owners x t).mp hmem).2
  simp [keInitializeMutex] at howner

/-- A mutant has at most one owner, the thread whose list it is on; its signal state counts the
acquisitions of the owner; an exit releases what the thread owns, and the next acquisition, no other,
reports it, in the status the wait type asks for; a deleted mutant leaves the list of its owner. -/
theorem mutant_ownership (h₀ : Initial s₀) (h : Run s₀ s) :
    (∀ x, (s₀.objects x).type = .mutant → Owned x s ∧ ReportedOnce x s.history) ∧
    (∀ t s', s.current = some t → step .terminate s = .ok s' →
      (s'.threads t).mutantList = [] ∧ Abandons (s.threads t).mutantList s s') ∧
    (∀ t waitType objects status taken, .returned t waitType objects status taken ∈ s.history →
      ReturnOk waitType objects status taken) ∧
    ∀ w s', (s.objects (.waitable w)).waitList = [] → step (.deleteMutant w) s = .ok s' →
      ∀ t, .waitable w ∉ (s'.threads t).mutantList := by
  have hs := h.inv h₀
  refine ⟨fun x htype => ⟨hs.owned htype, hs.reportedOnce htype⟩, fun t s' ht hop => ?_,
    fun t waitType objects status taken he => hs.events _ he, fun w s' hlist hop t => ?_⟩
  · rw [step, byCurrent, ht] at hop
    exact ((kiTerminateThread_ends h₀ hs ht).of_ok hop).2
  · exact hs.deleted hop hlist

theorem mutant_ownership_sample : ∃ s, runOps sampleOps sampleMachine = .ok s ∧
    (s.objects (.waitable (.body 0))).ownerThread = some 0 ∧
    (s.objects (.waitable (.body 0))).signalState = 1 - held (.waitable (.body 0)) 0 s.history := by
  obtain ⟨s, hs, howner⟩ : ∃ s, runOps sampleOps sampleMachine = .ok s ∧
      (s.objects (.waitable (.body 0))).ownerThread = some 0 := ⟨_, rfl, rfl⟩
  have hmutants := (mutant_ownership sampleMachine_initial (Run.refl.ofOps hs)).1
  exact ⟨s, hs, howner, (hmutants (.waitable (.body 0)) rfl).1.recursion 0 howner⟩

/-! ## Exits and timers -/

/-- A thread that has exited leaves nothing behind: it owns no object, none of its blocks is in a wait
list, and its timeout is not among the timers. -/
theorem exit_leaves_nothing (h₀ : Initial s₀) (h : Run s₀ s)
    (hexited : (s.threads t).state = .terminated) :
    (∀ x, (s.objects x).type = .mutant → (s.objects x).ownerThread ≠ some t) ∧
    (∀ x, ∀ b ∈ (s.objects x).waitList, b.thread ≠ t) ∧ .timeout t ∉ s.timerList := by
  have hs := h.inv h₀
  refine ⟨fun x htype howner => ?_, fun x b hb hthread => ?_, fun hmem => ?_⟩
  · have hmem := (hs.owners x t).mpr ⟨htype, howner⟩
    rw [hs.exited t hexited] at hmem
    cases hmem
  · have hwaiting := ((hs.waits.listed x b).mp hb).2.1
    rw [hthread, hexited] at hwaiting
    cases hwaiting
  · have harmed := hs.waits.timeouts t ((hs.waits.inserted _).mpr hmem)
    rw [(hs.waits.idle t (by rw [hexited]; nofun)).2] at harmed
    cases harmed

theorem exit_leaves_nothing_sample : ∃ s, runOps [.readyCreated 0, .dispatch 0,
    .wait [.body 0] .waitAny false false none, .terminate] sampleMachine = .ok s ∧
    (s.objects (.waitable (.body 0))).ownerThread ≠ some 0 := by
  obtain ⟨s, hs, hexited, htype⟩ : ∃ s, runOps [.readyCreated 0, .dispatch 0,
      .wait [.body 0] .waitAny false false none, .terminate] sampleMachine = .ok s ∧
      (s.threads 0).state = .terminated ∧ (s.objects (.waitable (.body 0))).type = .mutant :=
    ⟨_, rfl, rfl, rfl⟩
  exact ⟨s, hs, (exit_leaves_nothing sampleMachine_initial (Run.refl.ofOps hs) hexited).1 _ htype⟩

/-- The list of timers holds each armed timer once and nothing else: timer objects that are set, and the
timeouts of threads that wait with one. -/
theorem timer_list_exact (h₀ : Initial s₀) (h : Run s₀ s) :
    s.timerList.Nodup ∧ (∀ x, x ∈ s.timerList ↔ (s.objects x).inserted = true) ∧
    ∀ x ∈ s.timerList,
      ((s.objects x).type = .notificationTimer ∨ (s.objects x).type = .synchronizationTimer) ∧
      ∀ t, x = .timeout t → (s.threads t).state = .waiting ∧ (s.threads t).timerArmed = true := by
  have hs := h.inv h₀
  refine ⟨hs.waits.timers, fun x => (hs.waits.inserted x).symm, fun x hx => ⟨?_, ?_⟩⟩
  · rw [hs.types x]
    exact hs.timed x ((hs.waits.inserted x).mpr hx)
  · rintro t rfl
    have harmed := hs.waits.timeouts t ((hs.waits.inserted _).mpr hx)
    refine ⟨by_contra fun hidle => ?_, harmed⟩
    rw [(hs.waits.idle t hidle).2] at harmed
    cases harmed

theorem timer_list_exact_sample : ∃ s, runOps sampleOps sampleMachine = .ok s ∧
    s.timerList = [.timeout 1] ∧ (s.threads 1).state = .waiting := by
  obtain ⟨s, hs, hlist⟩ : ∃ s, runOps sampleOps sampleMachine = .ok s ∧
      s.timerList = [.timeout 1] := ⟨_, rfl, rfl⟩
  have htimers := (timer_list_exact sampleMachine_initial (Run.refl.ofOps hs)).2.2
  exact ⟨s, hs, hlist, ((htimers (.timeout 1) (by rw [hlist]; decide)).2 1 rfl).1⟩

end

end Proskrnl.Ke
