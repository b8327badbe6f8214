import Proskrnl.Ps.Lifecycle

/-!
# The steps of a system, seen by one process

A system of processes is a life for each of them: every step that is admitted does to each process
what an `Effect` does (`step_effects`), and no admitted step of a sound system halts.
-/

namespace Proskrnl.Ps
open Outcome Relation List Option

def System.life (s : System) (p : Nat) : Life where
  process := (s.processes[p]?).getD {}
  threads t := (s.threads[t]?).filter fun T => T.process = p

section
variable {s s' : System} {p q t : Nat} {T : Thread} {f : Thread → Thread} {g : Process → Process}

theorem life_threads : (s.life p).threads t = some T ↔ s.threads[t]? = some T ∧ T.process = p := by
  simp [System.life, filter_eq_some_iff]

theorem table_eq (s : System) (p : Nat) : s.table p = (s.life p).process.handleTable := by
  unfold System.table System.life
  cases s.processes[p]? <;> rfl

theorem threadList_eq (s : System) (p : Nat) :
    s.threadList p = (s.life p).process.threadListHead := by
  unfold System.threadList System.life
  cases s.processes[p]? <;> rfl

theorem life_setProcess_self (hp : p < s.processes.length) :
    (s.setProcess p g).life p = (s.life p).setProcess g := by
  unfold System.life System.setProcess Life.setProcess
  simp [hp]

theorem life_setProcess_ne (hne : q ≠ p) : (s.setProcess q g).life p = s.life p := by
  unfold System.life System.setProcess
  simp [hne]

theorem life_setThread (hf : ∀ T, (f T).process = T.process) :
    (s.setThread t f).life p = (s.life p).setThread t f := by
  unfold System.life System.setThread Life.setThread
  congr 1
  funext u
  by_cases hu : u = t
  · subst hu
    rw [if_pos rfl]
    cases hT : s.threads[u]? with
    | none => simp [hT]
    | some T => by_cases hp : T.process = p <;> simp [filter_some, hT, hf, hp]
  · simp [hu, Ne.symm hu]

variable {v : Life} {exitStatus : NtStatus} {u index capacity : Nat} {entry : HandleEntry}
  {env : Env}

theorem setThread_of_none (hnone : v.threads t = none) : v.setThread t f = v := by
  unfold Life.setThread
  congr 1
  funext u
  split
  · rename_i hu
    subst hu
    rw [hnone]
    rfl
  · rfl

theorem life_threads_ne (hT : s.threads[t]? = some T) (hne : T.process ≠ p) :
    (s.life p).threads t = none := by
  simp [System.life, filter_some, hT, hne]

theorem life_setMode (mode : Mode) :
    (s.setThread t fun T => { T with mode := mode }).life p =
      (s.life p).setThread t fun T => { T with mode := mode } := life_setThread fun _ => rfl

theorem life_setThread_ne (hf : ∀ T, (f T).process = T.process) (hT : s.threads[t]? = some T)
    (hne : T.process ≠ p) : (s.setThread t f).life p = s.life p := by
  rw [life_setThread hf]
  exact setThread_of_none (life_threads_ne hT hne)

theorem life_flagThreads {list : List Nat} :
    (flagThreads exitStatus list s).life p = (s.life p).flag exitStatus list := by
  unfold System.life flagThreads Life.flag
  congr 1
  funext u
  simp only [getElem?_mapIdx]
  cases hT : s.threads[u]? with
  | none => simp
  | some T => by_cases hu : u ∈ list <;> by_cases hp : T.process = p <;> simp [filter_some, hu, hp, pspFlagThreadTermination]

theorem getElem?_append_ne (hu : u ≠ s.threads.length) :
    (s.threads ++ [T])[u]? = s.threads[u]? := by
  rcases Nat.lt_or_gt_of_ne hu with hlt | hgt
  · exact getElem?_append_left hlt
  · rw [getElem?_eq_none (by simp; omega), getElem?_eq_none (by omega)]

theorem life_append (hT : T.process = p) :
    { s with threads := s.threads ++ [T] }.life p = (s.life p).addThread s.threads.length T := by
  unfold System.life Life.addThread
  congr 1
  funext u
  by_cases hu : u = s.threads.length
  · subst hu
    simp [filter_some, hT]
  · rw [if_neg hu]
    exact congrArg (Option.filter _) (getElem?_append_ne hu)

theorem life_append_ne (hT : T.process ≠ p) :
    { s with threads := s.threads ++ [T] }.life p = s.life p := by
  unfold System.life
  congr 1
  funext u
  by_cases hu : u = s.threads.length
  · subst hu
    simp [filter_some, hT]
  · exact congrArg (Option.filter _) (getElem?_append_ne hu)

theorem life_fresh : (s.life p).threads s.threads.length = none := by
  simp [System.life]

/-! ## Sound systems -/

abbrev Effects := ReflTransGen Effect

theorem Life.Sound.effects {v' : Life} (h : v.Sound) (heffects : Effects v v') : v'.Sound := by
  induction heffects with
  | refl => exact h
  | tail _ heffect ih => exact ih.effect heffect

structure System.Sound (s : System) : Prop where
  life : ∀ p < s.processes.length, (s.life p).Sound
  owned : ∀ (t : Nat) (T : Thread), s.threads[t]? = some T → T.process < s.processes.length

structure Leads (s s' : System) : Prop where
  length : s'.processes.length = s.processes.length
  life : ∀ p < s.processes.length, Effects (s.life p) (s'.life p)
  owned : ∀ (t : Nat) (T : Thread), s'.threads[t]? = some T →
    (∃ T0 : Thread, s.threads[t]? = some T0 ∧ T0.process = T.process) ∨ T.process < s.processes.length

theorem Leads.refl : Leads s s where
  length := rfl
  life _ _ := .refl
  owned _ T hT := .inl ⟨T, hT, rfl⟩

theorem Leads.trans {s'' : System} (h : Leads s s') (h' : Leads s' s'') : Leads s s'' where
  length := h'.length.trans h.length
  life p hp := (h.life p hp).trans (h'.life p (h.length ▸ hp))
  owned t T hT := by
    rcases h'.owned t T hT with ⟨T0, hT0, hprocess⟩ | hlt
    · rw [← hprocess]
      exact h.owned t T0 hT0
    · exact .inr (h.length ▸ hlt)

theorem Leads.sound (h : Leads s s') (hs : s.Sound) : s'.Sound where
  life p hp := by
    rw [h.length] at hp
    exact (hs.life p hp).effects (h.life p hp)
  owned t T hT := by
    rw [h.length]
    rcases h.owned t T hT with ⟨T0, hT0, hprocess⟩ | hlt
    · rw [← hprocess]
      exact hs.owned t T0 hT0
    · exact hlt

@[simp] theorem length_setProcess : (s.setProcess p g).processes.length = s.processes.length := by
  simp [System.setProcess]

theorem leads_setProcess (heffect : Effect (s.life p) ((s.life p).setProcess g)) :
    Leads s (s.setProcess p g) where
  length := length_setProcess
  life q hq := by
    by_cases hne : p = q
    · subst hne
      rw [life_setProcess_self hq]
      exact .single heffect
    · rw [life_setProcess_ne hne]
  owned _ T hT := .inl ⟨T, hT, rfl⟩

theorem owned_setThread (hf : ∀ T, (f T).process = T.process) {U : Thread}
    (hU : (s.setThread t f).threads[u]? = some U) :
    ∃ T0, s.threads[u]? = some T0 ∧ T0.process = U.process := by
  simp only [System.setThread, getElem?_modify] at hU
  obtain ⟨T0, hT0, rfl⟩ := map_eq_some_iff.mp hU
  refine ⟨T0, hT0, ?_⟩
  split
  · exact (hf T0).symm
  · rfl

theorem leads_setThread (hf : ∀ T, (f T).process = T.process) (hT : s.threads[t]? = some T)
    (heffect : T.process < s.processes.length →
      Effect (s.life T.process) (((s.life T.process).setProcess g).setThread t f)) :
    Leads s ((s.setProcess T.process g).setThread t f) where
  length := length_setProcess
  life q hq := by
    by_cases hne : T.process = q
    · subst hne
      rw [life_setThread hf, life_setProcess_self hq]
      exact .single (heffect hq)
    · rw [life_setThread_ne (s := s.setProcess T.process g) hf hT hne, life_setProcess_ne hne]
  owned _ _ hU := .inl (owned_setThread hf hU)

theorem setProcess_id : s.setProcess p id = s := by
  simp [System.setProcess]

theorem leads_moveThread {mode : Mode} (hT : s.threads[t]? = some T)
    (hfrom : T.mode = .kernel ∨ T.mode = .user) (hto : mode.begunToExit = false)
    (huser : mode = .user → T.terminating = false) :
    Leads s (s.setThread t fun T => { T with mode := mode }) := by
  have h : Leads s ((s.setProcess T.process id).setThread t fun T => { T with mode := mode }) :=
    leads_setThread (fun _ => rfl) hT fun _ =>
      Effect.move (life_threads.mpr ⟨hT, rfl⟩) hfrom hto huser
  rwa [setProcess_id] at h

theorem leads_flagThreads (exitStatus : NtStatus) (list : List Nat) :
    Leads s (flagThreads exitStatus list s) where
  length := rfl
  life p _ := by
    rw [life_flagThreads]
    exact .single (.flag exitStatus list)
  owned u U hU := by
    simp only [flagThreads, getElem?_mapIdx] at hU
    obtain ⟨T0, hT0, rfl⟩ := map_eq_some_iff.mp hU
    refine .inl ⟨T0, hT0, ?_⟩
    split <;> rfl

theorem leads_addThread (hT : T.process = p) (heffect : p < s.processes.length →
      Effect (s.life p) (((s.life p).addThread s.threads.length T).setProcess g))
    (hp : p < s.processes.length) :
    Leads s { s.setProcess p g with threads := s.threads ++ [T] } where
  length := length_setProcess
  life q hq := by
    by_cases hne : p = q
    · subst hne
      have h := life_append (s := s.setProcess p g) hT
      rw [life_setProcess_self hq] at h
      exact .single (h ▸ heffect hq)
    · have h := life_append_ne (s := s.setProcess p g) (p := q) (T := T) (by rwa [hT])
      rw [life_setProcess_ne hne] at h
      exact h ▸ .refl
  owned u U hU := by
    by_cases hu : u = s.threads.length
    · subst hu
      simp only [getElem?_concat_length, some.injEq] at hU
      subst hU
      exact .inr (hT ▸ hp)
    · exact .inl ⟨U, (getElem?_append_ne hu).symm.trans hU, rfl⟩

/-! ## Services -/

def Safe (s : System) (x : Except Halt System) : Prop := Ends (fun _ => False) x (Leads s)

theorem leads_openHandle {pool : Bool} {table : HandleTable}
    (haccepts : (s.life p).process.AcceptsHandles)
    (hmade : obpCreateHandleInTable (s.table p) entry pool = .ok (some table)) :
    Leads s (s.setTable p table) := by
  rw [table_eq] at hmade
  exact leads_setProcess (.openHandle haccepts hmade)

theorem leads_closeHandle {table : HandleTable}
    (hentry : (s.table p).entries[index]?.join = some entry)
    (hclosed : obpCloseHandleEntryIn (s.table p) index = .ok table) :
    Leads s (s.setTable p table) := by
  rw [table_eq] at hentry hclosed
  exact leads_setProcess (.closeHandle hentry hclosed)

theorem System.Sound.table (hs : s.Sound) (p : Nat) : (s.table p).Wf := by
  rw [table_eq]
  by_cases hp : p < s.processes.length
  · exact (hs.life p hp).table
  · simp only [System.life, getElem?_eq_none (not_lt.mp hp)]
    rfl

theorem calling_iff : s.calling t = true ↔ ∃ T, s.threads[t]? = some T ∧ T.mode = .kernel := by
  unfold System.calling
  cases s.threads[t]? <;> simp

theorem processOf_eq (hT : s.threads[t]? = some T) : s.processOf t = some T.process := by
  simp [System.processOf, hT]

section
variable (hs : s.Sound) (hT : s.threads[t]? = some T) (hmode : T.mode.begunToExit = false)
include hs hT hmode

theorem System.Sound.active : Active (s.life T.process) :=
  (hs.life _ (hs.owned t T hT)).active_of_live (life_threads.mpr ⟨hT, rfl⟩) hmode

theorem System.Sound.count_pos : 0 < (s.life T.process).process.activeThreadCount := by
  rw [(hs.life _ (hs.owned t T hT)).counted]
  have := length_pos_iff.mpr (hs.active hT hmode).list
  omega

theorem System.Sound.acceptsHandles : (s.life T.process).process.AcceptsHandles :=
  .inr ⟨(hs.active hT hmode).phase, hs.count_pos hT hmode⟩

theorem obpCreateHandle_ends :
    Ends (fun _ => False) (obpCreateHandle s t entry env) fun (s', status) =>
      Leads s s' ∧ (ntSuccess status = false → s' = s) := by
  unfold obpCreateHandle
  refine Ends.ite ?_ ?_
  · intro _
    exact Ends.ok ⟨.refl, fun _ => rfl⟩
  · intro _
    simp only [processOf_eq hT]
    have hends := obpCreateHandleInTable_ends entry env.pool (hs.table T.process)
    cases hmade : obpCreateHandleInTable (s.table T.process) entry env.pool with
    | error e => exact (hends.of_error hmade).elim
    | ok made =>
      cases made with
      | none => exact Ends.ok ⟨.refl, fun _ => rfl⟩
      | some table =>
        exact Ends.ok ⟨leads_openHandle (hs.acceptsHandles hT hmode) hmade, nofun⟩

end

theorem leads_createThreadObject (hp : p < s.processes.length)
    (haccepts : (s.life p).process.AcceptsThreads) : Leads s (pspCreateThreadObject s p) :=
  leads_addThread rfl (fun _ => .spawn life_fresh rfl haccepts) hp

theorem life_process {P : Process} (hP : s.processes[p]? = some P) : (s.life p).process = P := by
  simp [System.life, hP]

theorem unwind_createThreadObject (hs : s.Sound) (hp : p < s.processes.length)
    (haccepts : (s.life p).process.AcceptsThreads) :
    Safe s (pspUnwindUnstartedThread (pspCreateThreadObject s p) p s.threads.length) := by
  obtain ⟨P, hP⟩ : ∃ P, s.processes[p]? = some P := ⟨_, getElem?_eq_getElem hp⟩
  have hcount : 0 < P.activeThreadCount := life_process hP ▸ haccepts.2.1
  have hfresh : s.threads.length ∉ P.threadListHead := life_process hP ▸ (hs.life p hp).fresh life_fresh
  have hmade : (pspCreateThreadObject s p).processes[p]? = some { P with
      threadListHead := P.threadListHead ++ [s.threads.length]
      activeThreadCount := P.activeThreadCount + 1 } := by
    simp [pspCreateThreadObject, System.setProcess, hP]
  unfold pspUnwindUnstartedThread
  rw [hmade]
  refine Ends.ite ?_ ?_
  · intro _
    have h : Leads s { s.setProcess p id with
        threads := s.threads ++ [{ process := p, mode := .terminated }] } :=
      leads_addThread rfl (fun _ => .discard life_fresh rfl haccepts) hp
    refine Ends.ok ?_
    convert h using 1
    refine System.ext ?_ ?_
    · refine ext_getElem? fun q => ?_
      by_cases hq : q = p
      · subst hq
        simp [pspCreateThreadObject, System.setProcess, System.setThread, hP,
          erase_append_right _ hfresh]
      · simp [pspCreateThreadObject, System.setProcess, System.setThread, Ne.symm hq]
    · refine ext_getElem? fun u => ?_
      by_cases hu : u = s.threads.length
      · subst hu
        simp [pspCreateThreadObject, System.setProcess, System.setThread]
      · refine (getElem?_modify_ne _ _ (Ne.symm hu)).trans ?_
        exact (getElem?_append_ne hu).trans (getElem?_append_ne hu).symm
  · intro hnot
    exact absurd (show 0 < P.activeThreadCount + 1 by omega) hnot

theorem lt_of_acceptsThreads (h : (s.life p).process.AcceptsThreads) : p < s.processes.length := by
  by_contra hp
  have hphase := h.1
  simp [System.life, getElem?_eq_none (not_lt.mp hp)] at hphase

theorem kernel_createThreadObject {U : Thread} (hU : s.threads[u]? = some U) :
    (pspCreateThreadObject s p).threads[u]? = some U := by
  have hlt : u < s.threads.length := (List.getElem?_eq_some_iff.mp hU).1
  show (s.threads ++ [_])[u]? = some U
  rw [getElem?_append_left hlt, hU]

theorem pspCreateUserThread_safe {access : AccessMask} {attributes : UInt32} (hs : s.Sound)
    (hT : s.threads[t]? = some T) (hmode : T.mode.begunToExit = false)
    (haccepts : (s.life p).process.AcceptsThreads) :
    Ends (fun _ => False) (pspCreateUserThread s t p access attributes env) fun (s', _) => Leads s s' := by
  have hp := lt_of_acceptsThreads haccepts
  unfold pspCreateUserThread
  refine Ends.ite ?_ ?_
  · intro _
    exact Ends.ok .refl
  · intro _
    have hcreated := leads_createThreadObject hp haccepts
    refine (obpCreateHandle_ends (hcreated.sound hs) (kernel_createThreadObject hT) hmode).bind ?_
    rintro ⟨s', status⟩ ⟨hleads, hsame⟩
    refine Ends.ite ?_ ?_
    · intro _
      exact Ends.ok (hcreated.trans hleads)
    · intro hfailed
      rw [hsame (Bool.eq_false_iff.mpr hfailed)]
      refine (unwind_createThreadObject hs hp haccepts).bind ?_
      intro s'' hleads
      exact Ends.ok hleads

theorem leads_terminateThread {threadHandle : Nat}
    (hT : s.threads[t]? = some T) (hmode : T.mode = .kernel) :
    Leads s (ntTerminateThread s t threadHandle exitStatus).1 := by
  have hexit : Leads s (pspExitCurrentThread s t exitStatus) :=
    leads_moveThread hT (.inl hmode) rfl nofun
  unfold ntTerminateThread
  split
  · exact hexit
  · split
    · exact .refl
    · split
      · exact hexit
      · rename_i target _ _
        have h := leads_flagThreads (s := s) exitStatus [target]
        convert h using 1
        refine System.ext rfl (ext_getElem? fun u => ?_)
        by_cases hu : u = target
        · subst hu
          simp [System.setThread, flagThreads]
        · simp [System.setThread, flagThreads, hu, Ne.symm hu]
    · exact .refl

theorem leads_kill (exitStatus : NtStatus) :
    Leads s (pspTerminateProcessThreads (s.setProcess p fun P => { P with terminated := true }) p
      exitStatus) where
  length := length_setProcess
  life q hq := by
    unfold pspTerminateProcessThreads
    rw [life_flagThreads]
    by_cases hne : p = q
    · subst hne
      rw [threadList_eq, life_setProcess_self hq]
      exact .single (.kill exitStatus)
    · rw [life_setProcess_ne hne]
      exact .single (.flag _ _)
  owned t T hT := (leads_flagThreads _ _).owned t T hT

theorem leads_exit (exitStatus : NtStatus) (hT : s.threads[t]? = some T) (hmode : T.mode = .kernel) :
    Leads s (pspExitCurrentProcess (s.setProcess T.process fun P => { P with terminated := true }) t
      T.process exitStatus) where
  length := length_setProcess
  life q hq := by
    unfold pspExitCurrentProcess pspExitCurrentThread
    rw [life_setMode, life_flagThreads]
    by_cases hne : T.process = q
    · subst hne
      rw [threadList_eq, life_setProcess_self hq]
      exact .single (.exit exitStatus (life_threads.mpr ⟨hT, rfl⟩) hmode)
    · rw [life_setProcess_ne hne]
      rw [setThread_of_none (by simp [Life.flag, life_threads_ne hT hne])]
      exact .single (.flag _ _)
  owned u U hU := by
    obtain ⟨T0, hT0, hprocess⟩ :=
      owned_setThread (f := fun T => { T with mode := .leaving exitStatus }) (fun _ => rfl) hU
    rw [← hprocess]
    exact (leads_flagThreads _ _).owned u T0 hT0

theorem leads_terminateProcess {processHandle : Nat}
    (hT : s.threads[t]? = some T) (hmode : T.mode = .kernel) :
    Leads s (ntTerminateProcess s t processHandle exitStatus).1 := by
  unfold ntTerminateProcess
  rw [processOf_eq hT]
  simp only
  split
  · exact leads_flagThreads _ _
  · split
    · exact .refl
    · split
      · rename_i hself
        subst hself
        exact leads_exit exitStatus hT hmode
      · exact leads_kill exitStatus

theorem leads_fault (exitStatus : NtStatus) (hT : s.threads[t]? = some T) (hmode : T.mode = .user) :
    Leads s (pspExitCurrentProcess s t T.process exitStatus) := by
  refine (leads_flagThreads exitStatus ((s.threadList T.process).filter (· ≠ t))).trans ?_
  have hflagged : (flagThreads exitStatus ((s.threadList T.process).filter (· ≠ t)) s).threads[t]? =
      some (if t ∈ (s.threadList T.process).filter (· ≠ t) then
        pspFlagThreadTermination exitStatus T else T) := by
    simp only [flagThreads, getElem?_mapIdx, hT, map_some]
  refine leads_moveThread hflagged (.inr ?_) rfl nofun
  rw [mode_flag]
  exact hmode

theorem leads_edge (hT : s.threads[t]? = some T) (hmode : T.mode = .kernel) :
    Leads s (kiProcessPendingUserSignals s t) := by
  unfold kiProcessPendingUserSignals
  simp only [hT]
  split
  · exact leads_moveThread hT (.inl hmode) rfl nofun
  · rename_i hpending
    exact leads_moveThread hT (.inl hmode) rfl fun _ => Bool.eq_false_iff.mpr hpending

theorem closeSource_safe (sourceHandle : Nat) (options : UInt32) (hs : s.Sound) :
    Safe s (closeSource s p sourceHandle options) := by
  unfold closeSource
  refine Ends.ite (fun _ => Ends.ok .refl) ?_
  intro _
  cases hfound : obpEntryInTable (s.table p) sourceHandle with
  | none => exact Ends.ok .refl
  | some found =>
    have hentry := obpEntryInTable_eq_some hfound
    obtain ⟨table, heq, -, -⟩ := obpCloseHandleEntryIn_wf (hs.table p) hentry
    simp only [heq]
    exact Ends.ok (leads_closeHandle hentry heq)

theorem ntClose_safe {handle : Nat} (hs : s.Sound) :
    Ends (fun _ => False) (ntClose s t handle) fun (s', _) => Leads s s' := by
  unfold ntClose
  refine Ends.ite (fun _ => Ends.ok .refl) ?_
  intro _
  cases hprocess : s.processOf t with
  | none => exact Ends.ok .refl
  | some p =>
    cases hfound : obpEntryInTable (s.table p) handle with
    | none =>
      simp only [hfound]
      exact Ends.ok .refl
    | some found =>
      simp only [hfound]
      refine Ends.ite (fun _ => Ends.ok .refl) ?_
      intro _
      have hentry := obpEntryInTable_eq_some hfound
      obtain ⟨table, heq, -, -⟩ := obpCloseHandleEntryIn_wf (hs.table p) hentry
      simp only [heq]
      exact Ends.ok (leads_closeHandle hentry heq)

theorem ntDuplicateObject_safe {sourceProcess sourceHandle targetProcess : Nat} {wantsHandle : Bool}
    {granted : AccessMask} {attributes options : UInt32} (hs : s.Sound)
    (haccepts : ∀ p, referenceProcess s t targetProcess processDupHandle = .ok p → wantsHandle = true →
      (s.life p).process.AcceptsHandles) :
    Ends (fun _ => False) (ntDuplicateObject s t sourceProcess sourceHandle targetProcess wantsHandle
      granted attributes options env) fun (s', _) => Leads s s' := by
  unfold ntDuplicateObject
  refine Ends.ite (fun _ => Ends.ok .refl) ?_
  intro _
  cases hsource : referenceProcess s t sourceProcess processDupHandle with
  | error status => exact Ends.ok .refl
  | ok sourceProc =>
    cases htarget : referenceProcess s t targetProcess processDupHandle with
    | error status => exact Ends.ok .refl
    | ok targetProc =>
      cases hbody : duplicateSource s t sourceProc sourceHandle with
      | none =>
        simp only [hbody]
        exact Ends.ok .refl
      | some found =>
        simp only [hbody]
        refine Ends.ite ?_ ?_
        · intro _
          have hclosed := closeSource_safe (p := sourceProc) sourceHandle options hs
          cases hclose : closeSource s sourceProc sourceHandle options with
          | error e => exact (hclosed.of_error hclose).elim
          | ok s' => exact Ends.ok (hclosed.of_ok hclose)
        · intro hwants
          have hmade := obpCreateHandleInTable_ends
            ⟨found.1, granted, if options &&& duplicateSameAttributes ≠ 0 then found.2 else attributes⟩
            env.pool (hs.table targetProc)
          cases hnew : obpCreateHandleInTable (s.table targetProc) ⟨found.1, granted,
              if options &&& duplicateSameAttributes ≠ 0 then found.2 else attributes⟩ env.pool with
          | error e => exact (hmade.of_error hnew).elim
          | ok made =>
            cases made with
            | none => exact Ends.ok .refl
            | some table =>
              have hopened := leads_openHandle (haccepts targetProc htarget (by simpa using hwants)) hnew
              refine (closeSource_safe sourceHandle options (hopened.sound hs)).bind ?_
              intro s' hclosed
              exact Ends.ok (hopened.trans hclosed)

/-! ## The exit path and process creation -/

theorem leads_retire {status : NtStatus} (hs : s.Sound) (hT : s.threads[t]? = some T)
    (hmode : T.mode = .leaving status) : Leads s (pspRetireCurrentThread s t status) := by
  obtain ⟨P, hP⟩ : ∃ P, s.processes[T.process]? = some P :=
    ⟨_, getElem?_eq_getElem (hs.owned t T hT)⟩
  unfold pspRetireCurrentThread
  simp only [processOf_eq hT]
  refine leads_setThread (fun _ => rfl) hT fun _ => ?_
  have heffect := Effect.retire (life_threads.mpr ⟨hT, rfl⟩) hmode
  rw [← table_eq] at heffect
  simpa only [hP, elim_some, life_process hP] using heffect

theorem turn_eq_ok {table : HandleTable} (hwf : table.Wf)
    (hclosing : Closing table index capacity) :
    ∃ table' next, obpCloseAllHandlesTurn table index capacity = .ok (table', next) := by
  have hends := hclosing.turn_ends hwf
  cases hturn : obpCloseAllHandlesTurn table index capacity with
  | error e => exact (hends.of_error hturn).elim
  | ok found => exact ⟨found.1, found.2, rfl⟩

theorem setTable_setProcess {table : HandleTable} :
    (s.setTable p table).setProcess p g = s.setProcess p fun P => g { P with handleTable := table } := by
  simp only [System.setTable, System.setProcess, modify_modify_eq]
  rfl

theorem pspRundownTurn_safe {status : NtStatus} (hs : s.Sound)
    (hT : s.threads[t]? = some T) (hmode : T.mode = .rundown status index capacity) :
    Safe s (pspRundownTurn s t T.process status index capacity) := by
  have hlife := hs.life _ (hs.owned t T hT)
  have hmem := life_threads.mpr ⟨hT, rfl⟩
  obtain ⟨table, next, hturn⟩ := turn_eq_ok hlife.table (hlife.lastThread hmem hmode).closing
  unfold pspRundownTurn
  rw [table_eq, hturn]
  cases next with
  | some next =>
    refine Ends.ok (leads_setThread (fun _ => rfl) hT fun _ => ?_)
    exact Effect.rundown hmem hmode hturn
  | none =>
    refine Ends.ok ?_
    simp only [setTable_setProcess]
    refine leads_setThread (fun _ => rfl) hT fun _ => ?_
    exact Effect.signal hmem hmode hturn

theorem leads_start (hP : (s.life p).process.phase = .building) (hp : p < s.processes.length)
    (hterminated : (s.life p).process.terminated = false) : Leads s (pspStartProcess s p) := by
  have h : Leads s { s.setProcess p fun P =>
      { P with
        phase := .running
        threadListHead := P.threadListHead ++ [s.threads.length]
        activeThreadCount := 0 + 1 } with
      threads := s.threads ++ [{ process := p }] } :=
    leads_addThread rfl (fun _ => .start hP rfl hterminated) hp
  convert h using 1
  simp only [pspStartProcess, pspCreateThreadObject, System.setProcess, modify_modify_eq]
  rfl

theorem pspUnwindTurn_safe (hs : s.Sound) (hp : p < s.processes.length)
    (hP : (s.life p).process.phase = .unwinding index capacity) :
    Safe s (pspUnwindTurn s p index capacity) := by
  have hlife := hs.life p hp
  obtain ⟨-, -, -, -, hclosing⟩ := hlife.unstarted (by rw [hP]; exact nofun)
  obtain ⟨table, next, hturn⟩ := turn_eq_ok hlife.table (hclosing _ _ hP)
  unfold pspUnwindTurn
  rw [table_eq, hturn]
  refine Ends.ok ?_
  simp only [setTable_setProcess]
  exact leads_setProcess (.unwind hP hturn)

theorem Life.Sound.empty (h : v.Sound)
    (hphase : v.process.phase = .running ∨ v.process.phase = .unwound)
    (hall : ∀ t T, v.threads t = some T → T.mode = .terminated) : v.process.handleTable.inUse = 0 := by
  cases h.stage with
  | unstarted hp _ _ _ _ hunwound => exact hunwound (hphase.resolve_left hp)
  | active _ hl =>
    obtain ⟨t, ht⟩ := exists_mem_of_ne_nil _ hl
    obtain ⟨T, hT, hlive⟩ := (h.listed t).mp ht
    rw [hall t T hT] at hlive
    cases hlive
  | rundown _ _ hT hmode => exact absurd (hmode.symm.trans (hall _ _ hT)) nofun
  | exited _ _ _ _ _ _ hz => exact hz

theorem pspDeleteProcess_safe (hs : s.Sound) (hp : p < s.processes.length)
    (hphase : (s.life p).process.phase = .running ∨ (s.life p).process.phase = .unwound)
    (hall : ∀ t T, (s.life p).threads t = some T → T.mode = .terminated) :
    Safe s (pspDeleteProcess s p) := by
  unfold pspDeleteProcess
  rw [table_eq, if_pos ((hs.life p hp).empty hphase hall)]
  exact Ends.ok (leads_setProcess .delete)

theorem obpInheritHandles_wf (parent : HandleTable) (handleList : Option (List Nat)) :
    (obpInheritHandles parent handleList).Wf := rfl

theorem obpDuplicateIntoTable_ends (parent : HandleTable) (pool : Bool) (handles : List (Nat × Bool))
    {child : HandleTable} (h : child.Wf) :
    Ends (fun _ => False) (obpDuplicateIntoTable parent pool handles child) HandleTable.Wf := by
  induction handles generalizing child with
  | nil => exact Ends.ok h
  | cons handle rest ih =>
    unfold obpDuplicateIntoTable
    cases hfound : obpEntryInTable parent handle.1 with
    | none => exact ih h
    | some found =>
      refine (obpCreateHandleInTable_ends _ pool h).bind ?_
      intro made hmade
      cases made with
      | none => exact ih h
      | some table => exact ih (hmade table rfl)

theorem sound_new {table : HandleTable} (token : Nat) (h : table.Wf) :
    Life.Sound ⟨{ handleTable := table, token := token }, fun _ => none⟩ where
  table := h
  nodup := nodup_nil
  listed t := by simp
  counted := rfl
  flagged := nofun
  stage := .unstarted nofun (fun _ => rfl) rfl rfl nofun nofun

structure Steps (s s' : System) : Prop where
  length : s.processes.length ≤ s'.processes.length
  life : ∀ p < s.processes.length, Effects (s.life p) (s'.life p)
  sound : s'.Sound

theorem Leads.steps (h : Leads s s') (hs : s.Sound) : Steps s s' :=
  ⟨h.length.ge, h.life, h.sound hs⟩

theorem pspAllocateProcess_ends {creator : Option Nat} {options : CreateOptions} (hs : s.Sound) :
    Ends (fun _ => False) (pspAllocateProcess s creator options env) (Steps s) := by
  unfold pspAllocateProcess
  have hinherited (parent : HandleTable) : HandleTable.Wf
      (if options.inheritHandles then obpInheritHandles parent options.handleList else {}) := by
    split
    · exact obpInheritHandles_wf parent _
    · rfl
  refine (obpDuplicateIntoTable_ends _ env.pool options.duplicates (hinherited _)).bind ?_
  intro table hwf
  have hlife (p : Nat) (hp : p < s.processes.length) : (System.mk (s.processes ++
      [{ handleTable := table, token := options.token }]) s.threads).life p = s.life p := by
    simp [System.life, getElem?_append_left hp]
  refine Ends.ok ⟨by simp, fun p hp => ?_, ?_, ?_⟩
  · exact (hlife p hp).symm ▸ .refl
  · intro p hp
    rcases Nat.lt_or_ge p s.processes.length with hlt | hge
    · exact (hlife p hlt).symm ▸ hs.life p hlt
    · have hp : p = s.processes.length := by
        simp only [length_append, length_singleton] at hp
        omega
      subst hp
      convert sound_new options.token hwf using 1
      simp only [System.life, getElem?_concat_length, getD_some, Life.mk.injEq, true_and]
      funext t
      refine filter_eq_none_iff.mpr ?_
      intro T hT
      have := hs.owned t T hT
      simp only [decide_eq_true_eq]
      omega
  · intro t T hT
    have := hs.owned t T hT
    simp only [length_append, length_singleton]
    omega

/-! ## Steps -/

/-- The steps that a process is made for: threads are made in a process, and handles are put in its
table, while it has a thread that has not begun to exit. -/
def Op.Admitted (s : System) : Op → Prop
  | .createThread t processHandle .. =>
    ∀ p, referenceProcess s t processHandle processCreateThread = .ok p →
      (s.life p).process.AcceptsThreads
  | .inject p => (s.life p).process.AcceptsThreads
  | .duplicate t _ _ targetProcess wantsHandle .. =>
    ∀ p, referenceProcess s t targetProcess processDupHandle = .ok p → wantsHandle = true →
      (s.life p).process.AcceptsHandles
  | .start p => (s.life p).process.terminated = false
  | _ => True

theorem Ends.map {x : Except Halt (System × NtStatus)}
    (h : Ends (fun _ => False) x fun (s', _) => Leads s s') : Safe s (x.map Prod.fst) := by
  cases x with
  | ok a => exact h
  | error e => exact h

theorem any_eq_true {α : Type} {o : Option α} {f : α → Bool} (h : o.any f = true) :
    ∃ a, o = some a ∧ f a = true := by
  cases o with
  | none => cases h
  | some a => exact ⟨a, rfl, h⟩

theorem any_process {f : Process → Bool} (h : (s.processes[p]?).any f = true) :
    p < s.processes.length ∧ f (s.life p).process = true := by
  obtain ⟨P, hP, hf⟩ := any_eq_true h
  exact ⟨(List.getElem?_eq_some_iff.mp hP).1, life_process hP ▸ hf⟩

theorem step_ends {op : Op} (hs : s.Sound) (hop : op.enabled s = true) (hadmitted : op.Admitted s) :
    Ends (fun _ => False) (step s op) (Steps s) := by
  cases op with
  | trap t =>
    obtain ⟨T, hT, hmode⟩ := any_eq_true hop
    refine Ends.ok (Leads.steps (leads_moveThread hT (.inr (by simpa using hmode)) rfl nofun) hs)
  | fault t status =>
    obtain ⟨T, hT, hmode⟩ := any_eq_true hop
    refine Ends.ok (Leads.steps ?_ hs)
    rw [processOf_eq hT]
    exact leads_fault status hT (by simpa using hmode)
  | edge t =>
    obtain ⟨T, hT, hmode⟩ := calling_iff.mp hop
    exact Ends.ok ((leads_edge hT hmode).steps hs)
  | createThread t processHandle access attributes env =>
    obtain ⟨T, hT, hmode⟩ := calling_iff.mp hop
    refine (Ends.map ?_).mono fun _ h => h.steps hs
    unfold ntCreateThreadEx
    cases hprocess : referenceProcess s t processHandle processCreateThread with
    | error status => exact Ends.ok .refl
    | ok p =>
      exact pspCreateUserThread_safe hs hT (begunToExit_eq_false (.inl hmode)) (hadmitted p hprocess)
  | inject p =>
    exact Ends.ok ((leads_createThreadObject (lt_of_acceptsThreads hadmitted) hadmitted).steps hs)
  | terminateThread t threadHandle exitStatus =>
    obtain ⟨T, hT, hmode⟩ := calling_iff.mp hop
    exact Ends.ok ((leads_terminateThread hT hmode).steps hs)
  | terminateProcess t processHandle exitStatus =>
    obtain ⟨T, hT, hmode⟩ := calling_iff.mp hop
    exact Ends.ok ((leads_terminateProcess hT hmode).steps hs)
  | terminateMember p exitStatus => exact Ends.ok ((leads_flagThreads _ _).steps hs)
  | createHandle t entry env =>
    obtain ⟨T, hT, hmode⟩ := calling_iff.mp (Bool.and_eq_true_iff.mp hop).1
    refine (Ends.map ?_).mono fun _ h => h.steps hs
    exact (obpCreateHandle_ends hs hT (begunToExit_eq_false (.inl hmode))).mono fun _ h => h.1
  | duplicate t sourceProcess sourceHandle targetProcess wantsHandle granted attributes options env =>
    exact (Ends.map (ntDuplicateObject_safe hs hadmitted)).mono fun _ h => h.steps hs
  | close t handle => exact (Ends.map (ntClose_safe hs)).mono fun _ h => h.steps hs
  | retire t =>
    obtain ⟨T, hT, hmode⟩ := any_eq_true hop
    simp only [step, hT, map_some]
    split
    · rename_i status hleaving
      exact Ends.ok ((leads_retire hs hT (some.inj hleaving)).steps hs)
    · exact Ends.ok (Leads.refl.steps hs)
  | rundown t =>
    obtain ⟨T, hT, hmode⟩ := any_eq_true hop
    simp only [step, hT]
    split
    · rename_i hrundown
      exact (pspRundownTurn_safe hs hT hrundown).mono fun _ h => h.steps hs
    · exact Ends.ok (Leads.refl.steps hs)
  | allocate creator options env => exact pspAllocateProcess_ends hs
  | start p =>
    obtain ⟨hp, hphase⟩ := any_process hop
    exact Ends.ok ((leads_start (by simpa using hphase) hp hadmitted).steps hs)
  | abort p =>
    obtain ⟨hp, hphase⟩ := any_process hop
    exact Ends.ok ((leads_setProcess (.abort (by simpa using hphase))).steps hs)
  | unwind p =>
    obtain ⟨P, hP, hphase⟩ := any_eq_true hop
    simp only [step, hP, map_some]
    split
    · rename_i hunwinding
      refine (pspUnwindTurn_safe hs (List.getElem?_eq_some_iff.mp hP).1 ?_).mono fun _ h => h.steps hs
      rw [life_process hP]
      exact some.inj hunwinding
    · exact Ends.ok (Leads.refl.steps hs)
  | delete p =>
    have hop := Bool.and_eq_true_iff.mp hop
    have hop' := Bool.and_eq_true_iff.mp hop.1
    obtain ⟨hp, hphase⟩ := any_process hop'.1
    have hphase : (s.life p).process.deleted = false ∧
        ((s.life p).process.phase = .running ∨ (s.life p).process.phase = .unwound) := by
      simpa using hphase
    refine (pspDeleteProcess_safe hs hp hphase.2 ?_).mono fun _ h => h.steps hs
    intro t T hT
    obtain ⟨hT, hprocess⟩ := life_threads.mp hT
    have hall := List.all_eq_true.mp hop'.2 T (mem_of_getElem? hT)
    exact of_decide_eq_true hall hprocess

end

end Proskrnl.Ps
