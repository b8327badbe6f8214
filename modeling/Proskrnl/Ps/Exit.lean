import Proskrnl.Ps.Steps

/-!
# A process exits once

In every run whose steps are admitted a process is signalled once, when its last thread exits, and
stays as it is from then on (`process_exits_once`). The services admit more than that: threads and
handles can be put into a process that has exited (`exited_process_revived`).
-/

namespace Proskrnl.Ps
open Outcome Relation List

inductive AdmittedRun (s0 : System) : System → Prop
  | refl : AdmittedRun s0 s0
  | step {op : Op} {s s' : System} : AdmittedRun s0 s → op.enabled s = true → op.Admitted s →
    step s op = .ok s' → AdmittedRun s0 s'

section
variable {s s' : System} {p t : Nat}

def System.activeThreads (s : System) (p : Nat) : Nat :=
  s.threads.countP fun T => T.process = p ∧ T.mode.begunToExit = false

theorem sound_boot : System.Sound {} where
  life p hp := absurd hp (Nat.not_lt_zero p)
  owned t T hT := by simp at hT

theorem AdmittedRun.steps (h : AdmittedRun s s') (hs : s.Sound) : Steps s s' := by
  induction h with
  | refl => exact Leads.refl.steps hs
  | step _ hop hadmitted hstep ih =>
    have hnext := (step_ends ih.sound hop hadmitted).of_ok hstep
    refine ⟨ih.length.trans hnext.length, fun p hp => ?_, hnext.sound⟩
    exact (ih.life p hp).trans (hnext.life p (Nat.lt_of_lt_of_le hp ih.length))

theorem System.Sound.counted (hs : s.Sound) (hp : p < s.processes.length) :
    (s.life p).process.activeThreadCount = s.activeThreads p := by
  have hlife := hs.life p hp
  have hperm : (s.life p).process.threadListHead.Perm
      (s.threads.findIdxs fun T => T.process = p ∧ T.mode.begunToExit = false) := by
    refine (perm_ext_iff_of_nodup hlife.nodup nodup_findIdxs).mpr fun t => ?_
    rw [hlife.listed t, mem_findIdxs_iff_exists_getElem_pos]
    constructor
    · rintro ⟨T, hT, hmode⟩
      obtain ⟨hT, hprocess⟩ := life_threads.mp hT
      obtain ⟨hlt, rfl⟩ := List.getElem?_eq_some_iff.mp hT
      exact ⟨hlt, by simp [hprocess, hmode]⟩
    · rintro ⟨hlt, hmode⟩
      have hmode : s.threads[t].process = p ∧ s.threads[t].mode.begunToExit = false := by
        simpa using hmode
      exact ⟨s.threads[t], life_threads.mpr ⟨getElem?_eq_getElem hlt, hmode.1⟩, hmode.2⟩
  rw [hlife.counted, hperm.length_eq, length_findIdxs]
  rfl

variable {v : Life}

theorem Life.Sound.signalled_iff (h : v.Sound) :
    v.process.signals = 1 ↔
      v.process.phase = .running ∧ ∀ t T, v.threads t = some T → T.mode = .terminated := by
  cases h.stage with
  | unstarted hp _ hs => simp [hs, hp]
  | active hp hl _ hs =>
    refine iff_of_false (by simp [hs]) ?_
    rintro ⟨-, hall⟩
    obtain ⟨t, ht⟩ := exists_mem_of_ne_nil _ hl
    obtain ⟨T, hT, hlive⟩ := (h.listed t).mp ht
    rw [hall t T hT] at hlive
    cases hlive
  | rundown hp _ hT hmode _ _ hs =>
    refine iff_of_false (by simp [hs]) ?_
    rintro ⟨-, hall⟩
    exact absurd (hmode.symm.trans (hall _ _ hT)) nofun
  | exited hp _ _ hall hs => exact iff_of_true hs ⟨hp, hall⟩

theorem Life.Sound.signalState_iff (h : v.Sound) :
    v.process.signals ≤ 1 ∧ (v.process.signalState = true ↔ v.process.signals = 1) := by
  cases h.stage with
  | unstarted _ _ hs hst => simp [hs, hst]
  | active _ _ _ hs hst => simp [hs, hst]
  | rundown _ _ _ _ _ _ hs hst => simp [hs, hst]
  | exited _ _ _ _ hs hst => simp [hs, hst]

theorem SameExit.trans {v v' v'' : Life} (h : SameExit v v') (h' : SameExit v' v'') : SameExit v v'' where
  exitStatus := h'.exitStatus.trans h.exitStatus
  signalState := h'.signalState.trans h.signalState
  threads t := (h'.threads t).trans (h.threads t)

theorem Effects.sameExit {v' : Life} (h : Effects v v') (hv : v.Sound)
    (hsignalled : v.process.signalState = true) : SameExit v v' := by
  induction h with
  | refl => exact ⟨rfl, rfl, fun _ => .rfl⟩
  | tail hbefore heffect ih =>
    have hsound := hv.effects hbefore
    exact ih.trans ((hsound.exited (ih.signalState.trans hsignalled)).effect heffect)

theorem Effects.terminated {v v' : Life} (h : Effects v v') (hterminated : v.process.terminated = true) :
    v'.process.terminated = true := by
  induction h with
  | refl => exact hterminated
  | tail _ heffect ih => exact heffect.terminated ih

/-- Once an `NtTerminateProcess` has named the process, a thread of it that is in ring 3 has been
there all the time. -/
theorem Effects.user {v v' : Life} (h : Effects v v') (hv : v.Sound)
    (hterminated : v.process.terminated = true) {T : Thread} (hT : v'.threads t = some T)
    (hmode : T.mode = .user) : ∃ T0, v.threads t = some T0 ∧ T0.mode = .user := by
  induction h generalizing T with
  | refl => exact ⟨T, hT, hmode⟩
  | tail hbefore heffect ih =>
    obtain ⟨T1, hT1, hmode1 | ⟨hmode1, hpending⟩⟩ := heffect.user hT hmode
    · exact ih hT1 hmode1
    · have hflagged := (hv.effects hbefore).flagged (Effects.terminated hbefore hterminated)
      exact absurd (hflagged _ _ hT1 (.inl hmode1)) (by simp [hpending])

theorem Life.Sound.entries {v : Life} (h : v.Sound) (hzero : v.process.handleTable.inUse = 0) :
    ∀ entry ∈ v.process.handleTable.entries, entry = none := by
  have hfilled := h.table
  unfold HandleTable.Wf Slots.Filled at hfilled
  rw [hzero] at hfilled
  intro entry hentry
  simpa using countP_eq_zero.mp hfilled.symm entry hentry

/-- `NtTerminateProcess` of handle 0 flags the other threads that are there. -/
theorem flagged_of_zero {exitStatus : NtStatus} {T : Thread} (hT : s.threads[t]? = some T)
    (hstep : step s (.terminateProcess t 0 exitStatus) = .ok s') {u : Nat}
    (hu : u ∈ (s.life T.process).process.threadListHead) (hne : u ≠ t) :
    ∀ U, s'.threads[u]? = some U → U.terminating = true := by
  intro U hU
  have hs' : s' = flagThreads exitStatus ((s.threadList T.process).filter (· ≠ t)) s := by
    simpa [step, ntTerminateProcess, processOf_eq hT] using hstep.symm
  subst hs'
  simp only [flagThreads, getElem?_mapIdx] at hU
  obtain ⟨U0, -, rfl⟩ := Option.map_eq_some_iff.mp hU
  refine terminating_flag (.inr (mem_filter.mpr ⟨?_, by simpa using hne⟩))
  rwa [threadList_eq]

/-- The process is signalled at most once, and when the last of its threads is gone. -/
structure SignalledOnce (s : System) (p : Nat) : Prop where
  once : (s.life p).process.signals ≤ 1
  signalState : (s.life p).process.signalState = true ↔ (s.life p).process.signals = 1
  last : (s.life p).process.signals = 1 ↔ (s.life p).process.phase = .running ∧
    ∀ t T, (s.life p).threads t = some T → T.mode = .terminated

/-- A process that had exited in the first state has exited in the second with the same status; no
thread was made in it, none runs, and no handle is in its table. -/
structure StaysExited (s s' : System) (p : Nat) : Prop where
  exitStatus : (s'.life p).process.exitStatus = (s.life p).process.exitStatus
  signalState : (s'.life p).process.signalState = true
  threads : ∀ t, (s'.life p).threads t = none ↔ (s.life p).threads t = none
  terminated : ∀ t T, (s'.life p).threads t = some T → T.mode = .terminated
  inUse : (s'.life p).process.handleTable.inUse = 0
  entries : ∀ entry ∈ (s'.life p).process.handleTable.entries, entry = none

/-- Every thread of the process that has not come to its exit is flagged, and one in ring 3 was there
in the first state already. -/
structure Doomed (s s' : System) (p : Nat) : Prop where
  flagged : ∀ t T, (s'.life p).threads t = some T → T.mode = .kernel ∨ T.mode = .user →
    T.terminating = true
  noneEnters : ∀ t T, (s'.life p).threads t = some T → T.mode = .user →
    ∃ T0, (s.life p).threads t = some T0 ∧ T0.mode = .user

/-- A process exits once and completely, in a run whose steps are admitted. -/
theorem process_exits_once (h : AdmittedRun {} s) :
    (∀ p < s.processes.length,
      (s.life p).process.activeThreadCount = s.activeThreads p ∧ SignalledOnce s p ∧
      ((s.life p).process.signalState = true → ∀ s', AdmittedRun s s' → StaysExited s s' p) ∧
      ((s.life p).process.terminated = true → ∀ s', AdmittedRun s s' → Doomed s s' p)) ∧
    (∀ op : Op, op.enabled s = true → op.Admitted s → ∀ e, step s op ≠ .error e) ∧
    ∀ t T exitStatus s', s.threads[t]? = some T →
      step s (.terminateProcess t 0 exitStatus) = .ok s' →
      ∀ u U, (s.life T.process).threads u = some U → U.mode.begunToExit = false → u ≠ t →
        ∀ U', s'.threads[u]? = some U' → U'.terminating = true := by
  have hs : s.Sound := (h.steps sound_boot).sound
  refine ⟨fun p hp => ?_, fun op hop hadmitted e hstep => ?_, ?_⟩
  · have hlife := hs.life p hp
    obtain ⟨hle, hstate⟩ := hlife.signalState_iff
    refine ⟨hs.counted hp, ⟨hle, hstate, hlife.signalled_iff⟩, ?_, ?_⟩
    · intro hsignalled s' h'
      have hsteps := h'.steps hs
      have hsame := Effects.sameExit (hsteps.life p hp) hlife hsignalled
      have hlife' := hsteps.sound.life p (Nat.lt_of_lt_of_le hp hsteps.length)
      have hexited := hlife'.exited (hsame.signalState.trans hsignalled)
      exact ⟨hsame.exitStatus, hsame.signalState.trans hsignalled, hsame.threads, hexited.terminated,
        hexited.empty, hlife'.entries hexited.empty⟩
    · intro hterminated s' h'
      have hsteps := h'.steps hs
      have hlife' := hsteps.sound.life p (Nat.lt_of_lt_of_le hp hsteps.length)
      refine ⟨hlife'.flagged (Effects.terminated (hsteps.life p hp) hterminated), ?_⟩
      intro t T hT hmode
      exact Effects.user (hsteps.life p hp) hlife hterminated hT hmode
  · exact (step_ends hs hop hadmitted).of_error hstep
  · intro t T exitStatus s' hT hstep u U hU hmode hne
    have hlife := hs.life _ (hs.owned t T hT)
    exact flagged_of_zero hT hstep (hlife.live hU hmode) hne

end

def runOps (allows : System → Op → Bool) : List Op → System → Option System
  | [], s => some s
  | op :: ops, s =>
    if op.enabled s && allows s op then (step s op).toOption.bind (runOps allows ops) else none

variable {ops : List Op}

theorem runOps_cons {allows : System → Op → Bool} {op : Op} {s s' : System}
    (h : runOps allows (op :: ops) s = some s') :
    ∃ s1, op.enabled s = true ∧ allows s op = true ∧ step s op = .ok s1 ∧
      runOps allows ops s1 = some s' := by
  unfold runOps at h
  split at h
  · rename_i hop
    obtain ⟨hop, hallows⟩ := Bool.and_eq_true_iff.mp hop
    cases hstep : step s op with
    | error e =>
      rw [hstep] at h
      cases h
    | ok s1 =>
      rw [hstep] at h
      exact ⟨s1, hop, hallows, rfl, h⟩
  · cases h

theorem run_of_ops {s s' : System} (h : Run s)
    (hops : runOps (fun _ _ => true) ops s = some s') : Run s' := by
  induction ops generalizing s with
  | nil => exact Option.some.inj hops ▸ h
  | cons op ops ih =>
    obtain ⟨s1, hop, -, hstep, hops⟩ := runOps_cons hops
    exact ih (h.step hop hstep) hops

instance (P : Process) : Decidable P.AcceptsThreads := by
  unfold Process.AcceptsThreads
  infer_instance

instance (P : Process) : Decidable P.AcceptsHandles := by
  unfold Process.AcceptsHandles
  infer_instance

instance (x : Except NtStatus Nat) (P : Nat → Prop) [DecidablePred P] :
    Decidable (∀ p, x = .ok p → P p) :=
  match x with
  | .ok q => decidable_of_iff (P q) ⟨fun h _ hp => Except.ok.inj hp ▸ h, fun h => h q rfl⟩
  | .error _ => .isTrue nofun

instance (s : System) (op : Op) : Decidable (op.Admitted s) := by
  cases op <;> unfold Op.Admitted <;> infer_instance

theorem admittedRun_of_ops {s0 s s' : System} (h : AdmittedRun s0 s)
    (hops : runOps (fun s op => op.Admitted s) ops s = some s') : AdmittedRun s0 s' := by
  induction ops generalizing s with
  | nil => exact Option.some.inj hops ▸ h
  | cons op ops ih =>
    obtain ⟨s1, hop, hadmitted, hstep, hops⟩ := runOps_cons hops
    exact ih (h.step hop (of_decide_eq_true hadmitted) hstep) hops

def twoProcesses : List Op :=
  [.allocate none {} {}, .start 0, .allocate none {} {}, .start 1,
    .createHandle 0 ⟨.process 1, 0x43, 0⟩ {}]

def exitSecond : List Op :=
  twoProcesses ++ [.terminateProcess 1 ntCurrentProcess 7, .retire 1, .rundown 1]

/-- A thread is made in a process that has exited; it runs in ring 3, and its exit signals the process
again with another status. -/
def reviveSecond : List Op :=
  exitSecond ++ [.createThread 0 4 0 0 {}, .edge 2]

def signalAgain : List Op :=
  reviveSecond ++ [.trap 2, .terminateThread 2 0 9, .retire 2, .rundown 2]

/-- A handle is put in the table of a process that has exited, and the last handle to it is closed. -/
def fillSecond : List Op :=
  exitSecond ++ [.createHandle 0 ⟨.other 5, 0, 0⟩ {},
    .duplicate 0 ntCurrentProcess 8 4 true 0 0 0 {}, .close 0 4]

def drainFirst : List Op := twoProcesses ++ [.terminateProcess 0 0 7, .edge 0]

theorem exited_process_revived :
    (∃ s, Run s ∧ (s.life 1).process.signalState = true ∧
      (s.life 1).process.exitStatus = 7 ∧ ∃ T, (s.life 1).threads 2 = some T ∧ T.mode = .user) ∧
    (∃ s, Run s ∧ (s.life 1).process.signals = 2 ∧ (s.life 1).process.exitStatus = 9) ∧
    (∃ s, Run s ∧ (Op.delete 1).enabled s = true ∧ step s (.delete 1) = .error .deletedInUse) ∧
    ∃ s, Run s ∧ ∃ T, (s.life 0).threads 0 = some T ∧ T.mode = .user ∧ T.terminating = false := by
  refine ⟨?_, ?_, ?_, ?_⟩
  · have hrun : (runOps (fun _ _ => true) reviveSecond {}).any fun s =>
        (s.life 1).process.signalState = true ∧ (s.life 1).process.exitStatus = 7 ∧
          ((s.life 1).threads 2).any fun T => T.mode = .user := by decide +kernel
    obtain ⟨s, hs, hafter⟩ := Option.any_eq_true _ _ |>.mp hrun
    obtain ⟨hsignalled, hstatus, huser⟩ := of_decide_eq_true hafter
    obtain ⟨T, hT, hmode⟩ := any_eq_true huser
    exact ⟨s, run_of_ops .boot hs, hsignalled, hstatus, T, hT, of_decide_eq_true hmode⟩
  · have hrun : (runOps (fun _ _ => true) signalAgain {}).any fun s =>
        (s.life 1).process.signals = 2 ∧ (s.life 1).process.exitStatus = 9 := by decide +kernel
    obtain ⟨s, hs, hafter⟩ := Option.any_eq_true _ _ |>.mp hrun
    exact ⟨s, run_of_ops .boot hs, of_decide_eq_true hafter⟩
  · have hrun : (runOps (fun _ _ => true) fillSecond {}).any fun s => (Op.delete 1).enabled s = true ∧
        (match step s (.delete 1) with | .error .deletedInUse => true | _ => false) = true := by
      decide +kernel
    obtain ⟨s, hs, hafter⟩ := Option.any_eq_true _ _ |>.mp hrun
    obtain ⟨hop, hhalt⟩ := of_decide_eq_true hafter
    refine ⟨s, run_of_ops .boot hs, hop, ?_⟩
    cases hstep : step s (.delete 1) with
    | ok s' =>
      rw [hstep] at hhalt
      cases hhalt
    | error e =>
      rw [hstep] at hhalt
      cases e <;> first | rfl | cases hhalt
  · have hrun : (runOps (fun _ _ => true) drainFirst {}).any fun s =>
        ((s.life 0).threads 0).any fun T => T.mode = .user ∧ T.terminating = false := by decide +kernel
    obtain ⟨s, hs, huser⟩ := Option.any_eq_true _ _ |>.mp hrun
    obtain ⟨T, hT, hmode⟩ := any_eq_true huser
    exact ⟨s, run_of_ops .boot hs, T, hT, of_decide_eq_true hmode⟩

def killSecond : List Op :=
  twoProcesses ++ [.createThread 0 4 0 0 {}, .terminateProcess 0 4 7, .edge 1, .edge 2, .retire 1,
    .retire 2, .rundown 2]

/-- Both threads have left, the process has the status of its killer, and keeps it. -/
theorem process_exits_once_sample :
    ∃ s, AdmittedRun {} s ∧ (s.life 1).process.exitStatus = 7 ∧
      ∀ s', AdmittedRun s s' → StaysExited s s' 1 := by
  have hrun : (runOps (fun s op => op.Admitted s) killSecond {}).any fun s =>
      1 < s.processes.length ∧ (s.life 1).process.signalState = true ∧
        (s.life 1).process.exitStatus = 7 := by decide +kernel
  obtain ⟨s, hs, hafter⟩ := Option.any_eq_true _ _ |>.mp hrun
  obtain ⟨hp, hsignalled, hstatus⟩ := of_decide_eq_true hafter
  have h : AdmittedRun {} s := admittedRun_of_ops .refl hs
  exact ⟨s, h, hstatus, ((process_exits_once h).1 1 hp).2.2.1 hsignalled⟩

end Proskrnl.Ps
