import Proskrnl.Ps.Process
import Proskrnl.Library.Slots

/-!
# The life of one process

What the steps of a system can do to one process and its threads (`Effect`), where its life stands
(`Stage`), and that every effect keeps a life sound.
-/

namespace Proskrnl.Ps
open Slots Outcome List Option

/-! ## The handle table -/

section
variable {table table' : HandleTable} {entry : HandleEntry} {pool : Bool} {index : Nat}

/-- `inUse` agrees with the occupied slots, as `ObpVerifyHandleTable` asserts. -/
def HandleTable.Wf (table : HandleTable) : Prop := Filled table.inUse table.entries

theorem obpGrowTable_wf (h : table.Wf) (hgrow : obpGrowTable table pool = some table') :
    table'.Wf ∧ table'.inUse < table'.capacity := by
  unfold obpGrowTable at hgrow
  split at hgrow
  · rename_i hnil
    have hzero : table.inUse = 0 := by
      have := h.le_length
      rw [hnil] at this
      exact Nat.le_zero.mp this
    split at hgrow
    · cases hgrow
      refine ⟨?_, ?_⟩
      · show Filled table.inUse _
        rw [hzero]
        exact filled_replicate
      · simp [HandleTable.capacity, obpInitialHandleCapacity, hzero]
    · cases hgrow
  · rename_i hne
    split at hgrow
    · rename_i hfull
      split at hgrow
      · cases hgrow
        refine ⟨h.append_free, ?_⟩
        have : 0 < table.entries.length := length_pos_iff.mpr hne
        simp only [HandleTable.capacity, length_append, length_replicate] at hfull ⊢
        omega
      · cases hgrow
    · rename_i hfull
      cases hgrow
      refine ⟨h, Nat.lt_of_le_of_ne h.le_length hfull⟩

theorem obpCreateHandleInTable_ends (entry : HandleEntry) (pool : Bool) (h : table.Wf) :
    Ends (fun _ => False) (obpCreateHandleInTable table entry pool) fun made =>
      ∀ table', made = some table' → table'.Wf := by
  unfold obpCreateHandleInTable
  cases hgrow : obpGrowTable table pool with
  | none => exact Ends.ok nofun
  | some grown =>
    obtain ⟨hwf, hlt⟩ := obpGrowTable_wf h hgrow
    obtain ⟨i, hi⟩ := hwf.exists_free hlt
    simp only [hi]
    refine Ends.ok ?_
    rintro _ ⟨⟩
    exact hwf.set_some hi

theorem obpCloseHandleEntryIn_wf (h : table.Wf) (hentry : table.entries[index]?.join = some entry) :
    ∃ table', obpCloseHandleEntryIn table index = .ok table' ∧ table'.Wf ∧
      table'.entries = table.entries.set index none := by
  obtain ⟨hwf, hpos⟩ := h.set_none hentry
  unfold obpCloseHandleEntryIn
  rw [if_neg (Nat.pos_iff_ne_zero.mp hpos)]
  exact ⟨_, rfl, hwf, rfl⟩

theorem obpEntryInTable_eq_some {handle : Nat} {found : Nat × HandleEntry}
    (h : obpEntryInTable table handle = some found) :
    table.entries[found.1]?.join = some found.2 := by
  unfold obpEntryInTable at h
  split at h
  · cases h
  · obtain ⟨e, he, rfl⟩ := map_eq_some_iff.mp h
    exact he

structure Closing (table : HandleTable) (index capacity : Nat) : Prop where
  capacity : table.capacity = capacity
  freeBelow : FreeBelow index table.entries

theorem Closing.begin : Closing table 0 table.capacity where
  capacity := rfl
  freeBelow := .zero

theorem Closing.close {capacity i : Nat} (h : Closing table index capacity)
    (hentries : table'.entries = table.entries.set i none) : Closing table' index capacity where
  capacity := by
    rw [HandleTable.capacity, hentries, length_set]
    exact h.capacity
  freeBelow := by
    rw [hentries]
    exact h.freeBelow.set_none i

theorem Closing.turn_ends {capacity : Nat} (hclosing : Closing table index capacity) (h : table.Wf) :
    Ends (fun _ => False) (obpCloseAllHandlesTurn table index capacity) fun (table', next) =>
      table'.Wf ∧ (∀ i, next = some i → Closing table' i capacity) ∧
        (next = none → table'.inUse = 0) := by
  unfold obpCloseAllHandlesTurn
  refine Ends.ite ?_ ?_
  · intro _
    rw [if_neg (not_not.mpr hclosing.capacity)]
    cases hentry : table.entries[index]?.join with
    | none =>
      refine Ends.ok ⟨h, ?_, nofun⟩
      rintro _ ⟨⟩
      exact ⟨hclosing.capacity, hclosing.freeBelow.succ hentry⟩
    | some entry =>
      obtain ⟨table', heq, hwf, hentries⟩ := obpCloseHandleEntryIn_wf h hentry
      simp only [heq]
      refine Ends.ok ⟨hwf, ?_, nofun⟩
      rintro _ ⟨⟩
      refine ⟨(hclosing.close hentries).capacity, ?_⟩
      rw [hentries]
      exact hclosing.freeBelow.set_none_succ
  · intro hover
    have hzero : table.inUse = 0 := by
      by_contra hpos
      have hcapacity : table.capacity ≤ index := by
        by_contra hlt
        exact hover ⟨by omega, by omega⟩
      have hfree : FreeBelow table.entries.length table.entries := by
        intro j hj
        exact hclosing.freeBelow j (Nat.lt_of_lt_of_le hj hcapacity)
      exact hpos (h.eq_zero hfree)
    rw [if_pos hzero]
    exact Ends.ok ⟨h, nofun, fun _ => hzero⟩

end

/-! ## Lives -/

structure Life where
  process : Process
  threads : Nat → Option Thread

def Life.setThread (v : Life) (t : Nat) (f : Thread → Thread) : Life :=
  { v with threads := fun u => if u = t then (v.threads u).map f else v.threads u }

def Life.addThread (v : Life) (t : Nat) (T : Thread) : Life :=
  { v with threads := fun u => if u = t then some T else v.threads u }

def Life.setProcess (v : Life) (f : Process → Process) : Life := { v with process := f v.process }

def Life.setTable (v : Life) (table : HandleTable) : Life :=
  v.setProcess fun P => { P with handleTable := table }

def Life.flag (v : Life) (exitStatus : NtStatus) (list : List Nat) : Life :=
  { v with
    threads := fun t => (v.threads t).map fun T =>
      if t ∈ list then pspFlagThreadTermination exitStatus T else T }

/-- Handles may go into the table: the process has a thread that has not begun to exit, or is being
made. -/
def Process.AcceptsHandles (P : Process) : Prop :=
  P.phase = .building ∨ P.phase = .running ∧ 0 < P.activeThreadCount

/-- Threads may be made: the process has a thread that has not begun to exit, and no
`NtTerminateProcess` has named it. -/
def Process.AcceptsThreads (P : Process) : Prop :=
  P.phase = .running ∧ 0 < P.activeThreadCount ∧ P.terminated = false

inductive Effect : Life → Life → Prop
  | openHandle {v : Life} {entry : HandleEntry} {pool : Bool} {table : HandleTable}
      (haccepts : v.process.AcceptsHandles)
      (hmade : obpCreateHandleInTable v.process.handleTable entry pool = .ok (some table)) :
      Effect v (v.setTable table)
  | closeHandle {v : Life} {index : Nat} {entry : HandleEntry} {table : HandleTable}
      (hentry : v.process.handleTable.entries[index]?.join = some entry)
      (hclosed : obpCloseHandleEntryIn v.process.handleTable index = .ok table) :
      Effect v (v.setTable table)
  | flag {v : Life} (exitStatus : NtStatus) (list : List Nat) : Effect v (v.flag exitStatus list)
  /-- A thread goes between its modes, and to ring 3 only with no termination pending. -/
  | move {v : Life} {t : Nat} {T : Thread} {mode : Mode} (hT : v.threads t = some T)
      (hfrom : T.mode = .kernel ∨ T.mode = .user) (hto : mode.begunToExit = false)
      (huser : mode = .user → T.terminating = false) :
      Effect v (v.setThread t fun T => { T with mode := mode })
  | spawn {v : Life} {t : Nat} {T : Thread} (hfresh : v.threads t = none)
      (hmode : T.mode = .kernel) (haccepts : v.process.AcceptsThreads) :
      Effect v ((v.addThread t T).setProcess fun P =>
        { P with
          threadListHead := P.threadListHead ++ [t]
          activeThreadCount := P.activeThreadCount + 1 })
  /-- A thread is made and taken back. -/
  | discard {v : Life} {t : Nat} {T : Thread} (hfresh : v.threads t = none)
      (hmode : T.mode = .terminated) (haccepts : v.process.AcceptsThreads) :
      Effect v (v.addThread t T)
  /-- `NtTerminateProcess` by a thread of another process. -/
  | kill {v : Life} (exitStatus : NtStatus) :
      Effect v ((v.setProcess fun P => { P with terminated := true }).flag exitStatus
        v.process.threadListHead)
  /-- `NtTerminateProcess` by a thread of the process. -/
  | exit {v : Life} {t : Nat} {T : Thread} (exitStatus : NtStatus) (hT : v.threads t = some T)
      (hfrom : T.mode = .kernel) :
      Effect v (((v.setProcess fun P => { P with terminated := true }).flag exitStatus
        (v.process.threadListHead.filter (· ≠ t))).setThread t
          fun T => { T with mode := .leaving exitStatus })
  | retire {v : Life} {t : Nat} {T : Thread} {status : NtStatus} (hT : v.threads t = some T)
      (hfrom : T.mode = .leaving status) :
      Effect v ((v.setProcess fun P =>
        { P with
          activeThreadCount := P.activeThreadCount - 1
          threadListHead := P.threadListHead.erase t }).setThread t fun T =>
        { T with
          exitStatus := status
          signalState := true
          mode := if v.process.activeThreadCount - 1 = 0 then
            .rundown status 0 v.process.handleTable.capacity else .terminated })
  | rundown {v : Life} {t : Nat} {T : Thread} {status : NtStatus} {index next capacity : Nat}
      {table : HandleTable} (hT : v.threads t = some T) (hfrom : T.mode = .rundown status index capacity)
      (hturn : obpCloseAllHandlesTurn v.process.handleTable index capacity = .ok (table, some next)) :
      Effect v ((v.setTable table).setThread t
        fun T => { T with mode := .rundown status next capacity })
  | signal {v : Life} {t : Nat} {T : Thread} {status : NtStatus} {index capacity : Nat}
      {table : HandleTable} (hT : v.threads t = some T) (hfrom : T.mode = .rundown status index capacity)
      (hturn : obpCloseAllHandlesTurn v.process.handleTable index capacity = .ok (table, none)) :
      Effect v (((v.setTable table).setProcess fun P =>
        { P with exitStatus := status, signalState := true, signals := P.signals + 1 }).setThread t
          fun T => { T with mode := .terminated })
  | start {v : Life} {t : Nat} {T : Thread} (hphase : v.process.phase = .building)
      (hmode : T.mode = .kernel) (hterminated : v.process.terminated = false) :
      Effect v ((v.addThread t T).setProcess fun P =>
        { P with
          phase := .running
          threadListHead := P.threadListHead ++ [t]
          activeThreadCount := 0 + 1 })
  | abort {v : Life} (hphase : v.process.phase = .building) :
      Effect v (v.setProcess fun P => { P with phase := .unwinding 0 P.handleTable.capacity })
  | unwind {v : Life} {index capacity : Nat} {table : HandleTable} {next : Option Nat}
      (hphase : v.process.phase = .unwinding index capacity)
      (hturn : obpCloseAllHandlesTurn v.process.handleTable index capacity = .ok (table, next)) :
      Effect v ((v.setTable table).setProcess fun P =>
        { P with phase := next.elim .unwound fun index => .unwinding index capacity })
  | delete {v : Life} : Effect v (v.setProcess fun P => { P with deleted := true })

/-! ## Stages -/

section
variable {v v' : Life} {t : Nat} {T : Thread}

inductive Stage (v : Life) : Prop
  | unstarted (hphase : v.process.phase ≠ .running) (hnone : ∀ t, v.threads t = none)
      (hsignals : v.process.signals = 0) (hsignalState : v.process.signalState = false)
      (hunwinding : ∀ index capacity, v.process.phase = .unwinding index capacity →
        Closing v.process.handleTable index capacity)
      (hunwound : v.process.phase = .unwound → v.process.handleTable.inUse = 0) : Stage v
  | active (hphase : v.process.phase = .running) (hlist : v.process.threadListHead ≠ [])
      (hbegun : ∀ t T, v.threads t = some T → T.mode.begunToExit = true → T.mode = .terminated)
      (hsignals : v.process.signals = 0) (hsignalState : v.process.signalState = false) : Stage v
  | rundown {t : Nat} {T : Thread} {status : NtStatus} {index capacity : Nat}
      (hphase : v.process.phase = .running) (hlist : v.process.threadListHead = [])
      (hT : v.threads t = some T) (hmode : T.mode = .rundown status index capacity)
      (hothers : ∀ u U, v.threads u = some U → u ≠ t → U.mode = .terminated)
      (hclosing : Closing v.process.handleTable index capacity)
      (hsignals : v.process.signals = 0) (hsignalState : v.process.signalState = false) : Stage v
  | exited (hphase : v.process.phase = .running) (hlist : v.process.threadListHead = [])
      (hthread : ∃ t, v.threads t ≠ none)
      (hall : ∀ t T, v.threads t = some T → T.mode = .terminated)
      (hsignals : v.process.signals = 1) (hsignalState : v.process.signalState = true)
      (hempty : v.process.handleTable.inUse = 0) : Stage v

structure Life.Sound (v : Life) : Prop where
  table : v.process.handleTable.Wf
  nodup : v.process.threadListHead.Nodup
  listed : ∀ t, t ∈ v.process.threadListHead ↔
    ∃ T, v.threads t = some T ∧ T.mode.begunToExit = false
  counted : v.process.activeThreadCount = v.process.threadListHead.length
  flagged : v.process.terminated = true → ∀ t T, v.threads t = some T →
    T.mode = .kernel ∨ T.mode = .user → T.terminating = true
  stage : Stage v

def Mode.exit (mode : Mode) : Option Mode := if mode.begunToExit then some mode else none

def SameExits (v v' : Life) : Prop :=
  ∀ t, (v'.threads t).map (·.mode.exit) = (v.threads t).map (·.mode.exit)

theorem SameExits.symm (h : SameExits v v') : SameExits v' v := fun t => (h t).symm

theorem SameExits.none (h : SameExits v v') (hnone : v.threads t = none) : v'.threads t = none := by
  have h := h t
  rw [hnone] at h
  exact map_eq_none_iff.mp h

theorem SameExits.of_eq (h : SameExits v v') (hT : v'.threads t = some T) :
    ∃ T0, v.threads t = some T0 ∧ T0.mode.exit = T.mode.exit := by
  have h := h t
  rw [hT] at h
  exact map_eq_some_iff.mp h.symm

variable {mode : Mode} {status exitStatus : NtStatus} {index capacity : Nat} {table : HandleTable}
  {list : List Nat}

theorem exit_eq_none_iff : mode.exit = none ↔ mode.begunToExit = false := by
  cases mode <;> simp [Mode.exit, Mode.begunToExit]

theorem eq_of_exit_eq {mode' : Mode} (h : mode.exit = mode'.exit)
    (hbegun : mode'.begunToExit = true) : mode = mode' := by
  unfold Mode.exit at h
  rw [if_pos hbegun] at h
  split at h
  · exact some.inj h
  · cases h

theorem SameExits.begun (h : SameExits v v') (hT : v'.threads t = some T)
    (hbegun : T.mode.begunToExit = true) : ∃ T0, v.threads t = some T0 ∧ T0.mode = T.mode := by
  obtain ⟨T0, hT0, hexit⟩ := h.of_eq hT
  exact ⟨T0, hT0, eq_of_exit_eq hexit hbegun⟩

theorem SameExits.terminated (h : SameExits v v') (hT : v'.threads t = some T)
    (hall : ∀ T0, v.threads t = some T0 → T0.mode = .terminated) : T.mode = .terminated := by
  obtain ⟨T0, hT0, hexit⟩ := h.of_eq hT
  have hmode := hall T0 hT0
  refine (eq_of_exit_eq hexit.symm ?_).trans hmode
  rw [hmode]
  rfl

theorem Stage.congr (h : Stage v) (hexits : SameExits v v')
    (hphase : v'.process.phase = v.process.phase)
    (hlist : v'.process.threadListHead = v.process.threadListHead)
    (hsignals : v'.process.signals = v.process.signals)
    (hsignalState : v'.process.signalState = v.process.signalState)
    (hclosing : ∀ i c, Closing v.process.handleTable i c → Closing v'.process.handleTable i c)
    (hempty : v.process.handleTable.inUse = 0 → v'.process.handleTable.inUse = 0) : Stage v' := by
  cases h with
  | unstarted hp hnone hs hst hunwinding hunwound =>
    refine .unstarted (by rwa [hphase]) (fun t => hexits.none (hnone t)) (by rwa [hsignals])
      (by rwa [hsignalState]) ?_ ?_
    · intro index capacity hp'
      rw [hphase] at hp'
      exact hclosing _ _ (hunwinding _ _ hp')
    · intro hp'
      rw [hphase] at hp'
      exact hempty (hunwound hp')
  | active hp hl hbegun hs hst =>
    refine .active (by rwa [hphase]) (by rwa [hlist]) ?_ (by rwa [hsignals]) (by rwa [hsignalState])
    intro t T hT hT'
    obtain ⟨T0, hT0, hmode⟩ := hexits.begun hT hT'
    rw [← hmode]
    exact hbegun t T0 hT0 (by rwa [hmode])
  | @rundown t T _ _ _ hp hl hT hmode hothers hc hs hst =>
    obtain ⟨T', hT', hmode'⟩ := hexits.symm.begun hT (by rw [hmode]; rfl)
    refine .rundown (by rwa [hphase]) (by rwa [hlist]) hT' (hmode'.trans hmode) ?_
      (hclosing _ _ hc) (by rwa [hsignals]) (by rwa [hsignalState])
    intro u U hU hne
    exact hexits.terminated hU fun U0 hU0 => hothers u U0 hU0 hne
  | exited hp hl hthread hall hs hst hz =>
    refine .exited (by rwa [hphase]) (by rwa [hlist]) ?_ ?_ (by rwa [hsignals])
      (by rwa [hsignalState]) (hempty hz)
    · obtain ⟨t, ht⟩ := hthread
      exact ⟨t, fun hnone => ht (hexits.symm.none hnone)⟩
    · intro t T hT
      exact hexits.terminated hT (hall t)

theorem SameExits.listed (h : SameExits v v') :
    (∃ T, v'.threads t = some T ∧ T.mode.begunToExit = false) ↔
      ∃ T, v.threads t = some T ∧ T.mode.begunToExit = false := by
  constructor
  · rintro ⟨T, hT, hmode⟩
    obtain ⟨T0, hT0, hexit⟩ := h.of_eq hT
    exact ⟨T0, hT0, exit_eq_none_iff.mp (hexit.trans (exit_eq_none_iff.mpr hmode))⟩
  · rintro ⟨T, hT, hmode⟩
    obtain ⟨T0, hT0, hexit⟩ := h.symm.of_eq hT
    exact ⟨T0, hT0, exit_eq_none_iff.mp (hexit.trans (exit_eq_none_iff.mpr hmode))⟩

theorem Life.Sound.congr (h : v.Sound) (hexits : SameExits v v')
    (hprocess : v'.process = { v.process with
      handleTable := v'.process.handleTable
      terminated := v'.process.terminated
      deleted := v'.process.deleted })
    (hwf : v'.process.handleTable.Wf)
    (hflagged : v'.process.terminated = true → ∀ t T, v'.threads t = some T →
      T.mode = .kernel ∨ T.mode = .user → T.terminating = true)
    (hstage : Stage v') : v'.Sound where
  table := hwf
  nodup := by
    rw [hprocess]
    exact h.nodup
  listed t := by
    rw [hprocess]
    exact (h.listed t).trans hexits.listed.symm
  counted := by
    rw [hprocess]
    exact h.counted
  flagged := hflagged
  stage := hstage

theorem SameExits.refl : SameExits v v := fun _ => rfl

theorem sameExits_flag (v : Life) (exitStatus : NtStatus) (list : List Nat) :
    SameExits v (v.flag exitStatus list) := by
  intro t
  simp only [Life.flag, Option.map_map]
  congr 1
  funext T
  by_cases ht : t ∈ list
  · simp [ht, pspFlagThreadTermination]
  · simp [ht]

theorem sameExits_move (mode : Mode) (hT : v.threads t = some T)
    (hfrom : T.mode.begunToExit = false) (hto : mode.begunToExit = false) :
    SameExits v (v.setThread t fun T => { T with mode := mode }) := by
  intro u
  simp only [Life.setThread]
  split
  · rename_i hu
    subst hu
    rw [hT]
    simp [exit_eq_none_iff.mpr hfrom, exit_eq_none_iff.mpr hto]
  · rfl

theorem begunToExit_eq_false (h : mode = .kernel ∨ mode = .user) :
    mode.begunToExit = false := by
  rcases h with rfl | rfl <;> rfl

theorem Life.Sound.live (h : v.Sound) (hT : v.threads t = some T) (hmode : T.mode.begunToExit = false) :
    t ∈ v.process.threadListHead := (h.listed t).mpr ⟨T, hT, hmode⟩

theorem Life.Sound.fresh (h : v.Sound) (hfresh : v.threads t = none) :
    t ∉ v.process.threadListHead := by
  intro hmem
  obtain ⟨T, hT, -⟩ := (h.listed t).mp hmem
  rw [hfresh] at hT
  cases hT

structure Active (v : Life) : Prop where
  phase : v.process.phase = .running
  list : v.process.threadListHead ≠ []
  begun : ∀ t T, v.threads t = some T → T.mode.begunToExit = true → T.mode = .terminated
  signals : v.process.signals = 0
  signalState : v.process.signalState = false

theorem Life.Sound.active_of_list (h : v.Sound) (hlist : v.process.threadListHead ≠ []) : Active v := by
  cases h.stage with
  | unstarted hp hnone =>
    obtain ⟨t, ht⟩ := exists_mem_of_ne_nil _ hlist
    obtain ⟨T, hT, -⟩ := (h.listed t).mp ht
    rw [hnone t] at hT
    cases hT
  | active hp hl hbegun hs hst => exact ⟨hp, hl, hbegun, hs, hst⟩
  | rundown hp hl => exact absurd hl hlist
  | exited hp hl => exact absurd hl hlist

theorem Life.Sound.active_of_count (h : v.Sound) (hcount : 0 < v.process.activeThreadCount) :
    Active v := by
  refine h.active_of_list fun hnil => ?_
  rw [h.counted, hnil] at hcount
  exact absurd hcount (by simp)

theorem Life.Sound.active_of_live (h : v.Sound) (hT : v.threads t = some T)
    (hmode : T.mode.begunToExit = false) : Active v :=
  h.active_of_list (ne_nil_of_mem (h.live hT hmode))

structure LastThread (v : Life) (t : Nat) (index capacity : Nat) : Prop where
  phase : v.process.phase = .running
  list : v.process.threadListHead = []
  others : ∀ u U, v.threads u = some U → u ≠ t → U.mode = .terminated
  closing : Closing v.process.handleTable index capacity
  signals : v.process.signals = 0
  signalState : v.process.signalState = false

theorem Life.Sound.lastThread (h : v.Sound)
    (hT : v.threads t = some T) (hmode : T.mode = .rundown status index capacity) :
    LastThread v t index capacity := by
  have hne : T.mode ≠ .terminated := by
    rw [hmode]
    exact nofun
  cases h.stage with
  | unstarted hp hnone =>
    rw [hnone t] at hT
    cases hT
  | active hp hl hbegun => exact absurd (hbegun t T hT (by rw [hmode]; rfl)) hne
  | @rundown t' T' _ _ _ hp hl hT' hmode' hothers hc hs hst =>
    by_cases ht : t = t'
    · subst ht
      obtain rfl : T = T' := some.inj (hT.symm.trans hT')
      cases hmode.symm.trans hmode'
      exact ⟨hp, hl, hothers, hc, hs, hst⟩
    · exact absurd (hothers t T hT ht) hne
  | exited hp hl _ hall => exact absurd (hall t T hT) hne

/-! ## Effects keep a life sound -/

theorem Life.Sound.openHandle {entry : HandleEntry} {pool : Bool} (h : v.Sound)
    (haccepts : v.process.AcceptsHandles)
    (hmade : obpCreateHandleInTable v.process.handleTable entry pool = .ok (some table)) :
    (v.setTable table).Sound := by
  have hwf : table.Wf := (obpCreateHandleInTable_ends entry pool h.table).of_ok hmade table rfl
  refine h.congr .refl rfl hwf h.flagged ?_
  rcases haccepts with hphase | ⟨-, hcount⟩
  · cases h.stage with
    | unstarted hp hnone hs hst =>
      refine .unstarted hp hnone hs hst ?_ ?_
      · intro index capacity hp'
        exact absurd (hphase.symm.trans hp') nofun
      · intro hp'
        exact absurd (hphase.symm.trans hp') nofun
    | active hp => exact absurd (hphase.symm.trans hp) nofun
    | rundown hp => exact absurd (hphase.symm.trans hp) nofun
    | exited hp => exact absurd (hphase.symm.trans hp) nofun
  · obtain ⟨hp, hl, hbegun, hs, hst⟩ := h.active_of_count hcount
    exact .active hp hl hbegun hs hst

theorem Life.Sound.closeHandle {entry : HandleEntry} (h : v.Sound)
    (hentry : v.process.handleTable.entries[index]?.join = some entry)
    (hclosed : obpCloseHandleEntryIn v.process.handleTable index = .ok table) :
    (v.setTable table).Sound := by
  obtain ⟨table', heq, hwf, hentries⟩ := obpCloseHandleEntryIn_wf h.table hentry
  obtain rfl : table = table' := Except.ok.inj (hclosed.symm.trans heq)
  refine h.congr .refl rfl hwf h.flagged
    (h.stage.congr .refl rfl rfl rfl rfl (fun _ _ hclosing => hclosing.close hentries) ?_)
  intro hzero
  rw [obpCloseHandleEntryIn, if_pos hzero] at hclosed
  cases hclosed

theorem threads_flag (hT : (v.flag exitStatus list).threads t = some T) :
    ∃ T0, v.threads t = some T0 ∧
      T = if t ∈ list then pspFlagThreadTermination exitStatus T0 else T0 := by
  obtain ⟨T0, hT0, rfl⟩ := map_eq_some_iff.mp hT
  exact ⟨T0, hT0, rfl⟩

theorem terminating_flag {T0 : Thread} (h : T0.terminating = true ∨ t ∈ list) :
    (if t ∈ list then pspFlagThreadTermination exitStatus T0 else T0).terminating = true := by
  by_cases ht : t ∈ list
  · rw [if_pos ht]
    rfl
  · rw [if_neg ht]
    exact h.resolve_right ht

theorem mode_flag {T0 : Thread} :
    (if t ∈ list then pspFlagThreadTermination exitStatus T0 else T0).mode = T0.mode := by
  by_cases ht : t ∈ list
  · rw [if_pos ht]
    rfl
  · rw [if_neg ht]

theorem Life.Sound.flag (h : v.Sound) (exitStatus : NtStatus) (list : List Nat) :
    (v.flag exitStatus list).Sound := by
  have hexits := sameExits_flag v exitStatus list
  refine h.congr hexits rfl h.table ?_
    (h.stage.congr hexits rfl rfl rfl rfl (fun _ _ hclosing => hclosing) id)
  intro hterminated t T hT hmode
  obtain ⟨T0, hT0, rfl⟩ := threads_flag hT
  rw [mode_flag] at hmode
  exact terminating_flag (.inl (h.flagged hterminated t T0 hT0 hmode))

theorem threads_setThread {f : Thread → Thread} {u : Nat} {U : Thread}
    (hU : (v.setThread t f).threads u = some U) :
    (∃ T, u = t ∧ v.threads t = some T ∧ U = f T) ∨ u ≠ t ∧ v.threads u = some U := by
  simp only [Life.setThread] at hU
  split at hU
  · rename_i hu
    subst hu
    obtain ⟨T, hT, rfl⟩ := map_eq_some_iff.mp hU
    exact .inl ⟨T, rfl, hT, rfl⟩
  · rename_i hu
    exact .inr ⟨hu, hU⟩

theorem threads_addThread {u : Nat} {U : Thread} (hU : (v.addThread t T).threads u = some U) :
    u = t ∧ U = T ∨ u ≠ t ∧ v.threads u = some U := by
  simp only [Life.addThread] at hU
  split at hU
  · rename_i hu
    exact .inl ⟨hu, (some.inj hU).symm⟩
  · rename_i hu
    exact .inr ⟨hu, hU⟩

theorem Life.Sound.move (h : v.Sound) (hT : v.threads t = some T)
    (hfrom : T.mode = .kernel ∨ T.mode = .user) (hto : mode.begunToExit = false) :
    (v.setThread t fun T => { T with mode := mode }).Sound := by
  have hexits := sameExits_move mode hT (begunToExit_eq_false hfrom) hto
  refine h.congr hexits rfl h.table ?_
    (h.stage.congr hexits rfl rfl rfl rfl (fun _ _ hclosing => hclosing) id)
  intro hterminated u U hU hmode
  rcases threads_setThread hU with ⟨T', rfl, hT', rfl⟩ | ⟨-, hU⟩
  · obtain rfl : T = T' := some.inj (hT.symm.trans hT')
    exact h.flagged hterminated u T hT hfrom
  · exact h.flagged hterminated u U hU hmode

theorem Life.Sound.add (h : v.Sound) (hfresh : v.threads t = none) (hmode : T.mode = .kernel) :
    (v.process.threadListHead ++ [t]).Nodup ∧
      ∀ u, u ∈ v.process.threadListHead ++ [t] ↔
        ∃ U, (v.addThread t T).threads u = some U ∧ U.mode.begunToExit = false := by
  refine ⟨?_, ?_⟩
  · refine Nodup.append h.nodup (nodup_singleton t) ?_
    exact disjoint_singleton.mpr (h.fresh hfresh)
  · intro u
    rw [mem_append, mem_singleton, h.listed u]
    by_cases hu : u = t
    · subst hu
      simp [Life.addThread, hmode, Mode.begunToExit]
    · simp [Life.addThread, hu]

theorem Life.Sound.spawn (h : v.Sound) (hfresh : v.threads t = none) (hmode : T.mode = .kernel)
    (haccepts : v.process.AcceptsThreads) :
    ((v.addThread t T).setProcess fun P =>
      { P with
        threadListHead := P.threadListHead ++ [t]
        activeThreadCount := P.activeThreadCount + 1 }).Sound := by
  obtain ⟨-, hcount, hterminated⟩ := haccepts
  obtain ⟨hphase, hlist, hbegun, hsignals, hsignalState⟩ := h.active_of_count hcount
  obtain ⟨hnodup, hlisted⟩ := h.add hfresh hmode
  refine ⟨h.table, hnodup, hlisted, ?_, ?_, .active hphase ?_ ?_ hsignals hsignalState⟩
  · simp [Life.setProcess, Life.addThread, h.counted]
  · intro hterminated'
    exact absurd (hterminated.symm.trans hterminated') nofun
  · simp [Life.setProcess]
  · intro u U hU hbegun'
    rcases threads_addThread hU with ⟨-, rfl⟩ | ⟨-, hU⟩
    · rw [hmode] at hbegun'
      cases hbegun'
    · exact hbegun u U hU hbegun'

theorem Life.Sound.discard (h : v.Sound) (hfresh : v.threads t = none) (hmode : T.mode = .terminated)
    (haccepts : v.process.AcceptsThreads) : (v.addThread t T).Sound := by
  obtain ⟨-, hcount, -⟩ := haccepts
  obtain ⟨hphase, hlist, hbegun, hsignals, hsignalState⟩ := h.active_of_count hcount
  refine ⟨h.table, h.nodup, ?_, h.counted, ?_, .active hphase hlist ?_ hsignals hsignalState⟩
  · intro u
    refine (h.listed u).trans ?_
    by_cases hu : u = t
    · subst hu
      simp [Life.addThread, hfresh, hmode, Mode.begunToExit]
    · simp [Life.addThread, hu]
  · intro hterminated u U hU hmode'
    rcases threads_addThread hU with ⟨-, rfl⟩ | ⟨-, hU⟩
    · rw [hmode] at hmode'
      exact absurd hmode' (by simp)
    · exact h.flagged hterminated u U hU hmode'
  · intro u U hU hbegun'
    rcases threads_addThread hU with ⟨-, rfl⟩ | ⟨-, hU⟩
    · exact hmode
    · exact hbegun u U hU hbegun'

theorem Life.Sound.kill (h : v.Sound) (exitStatus : NtStatus) :
    ((v.setProcess fun P => { P with terminated := true }).flag exitStatus
      v.process.threadListHead).Sound := by
  have hexits := sameExits_flag v exitStatus v.process.threadListHead
  refine h.congr hexits rfl h.table ?_
    (h.stage.congr hexits rfl rfl rfl rfl (fun _ _ hclosing => hclosing) id)
  intro _ t T hT hmode
  obtain ⟨T0, hT0, rfl⟩ := threads_flag hT
  rw [mode_flag] at hmode
  exact terminating_flag (.inr (h.live hT0 (begunToExit_eq_false hmode)))

theorem SameExits.trans {v'' : Life} (h : SameExits v v') (h' : SameExits v' v'') : SameExits v v'' :=
  fun t => (h' t).trans (h t)

section
variable (h : v.Sound)
include h

theorem Life.Sound.exit (exitStatus : NtStatus) (hT : v.threads t = some T)
    (hfrom : T.mode = .kernel) :
    (((v.setProcess fun P => { P with terminated := true }).flag exitStatus
      (v.process.threadListHead.filter (· ≠ t))).setThread t
        fun T => { T with mode := .leaving exitStatus }).Sound := by
  have hmem : (v.flag exitStatus (v.process.threadListHead.filter (· ≠ t))).threads t =
      some (if t ∈ v.process.threadListHead.filter (· ≠ t) then
        pspFlagThreadTermination exitStatus T else T) := by
    simp only [Life.flag, hT, map_some]
  have hbegun : (if t ∈ v.process.threadListHead.filter (· ≠ t) then
      pspFlagThreadTermination exitStatus T else T).mode.begunToExit = false := by
    rw [mode_flag, hfrom]
    rfl
  have hexits := (sameExits_flag v exitStatus (v.process.threadListHead.filter (· ≠ t))).trans
    (sameExits_move (.leaving exitStatus) hmem hbegun rfl)
  refine h.congr hexits rfl h.table ?_
    (h.stage.congr hexits rfl rfl rfl rfl (fun _ _ hclosing => hclosing) id)
  intro _ u U hU hmode
  rcases threads_setThread hU with ⟨T', rfl, hT', rfl⟩ | ⟨hne, hU⟩
  · exact absurd hmode (by simp)
  · obtain ⟨U0, hU0, rfl⟩ := threads_flag hU
    rw [mode_flag] at hmode
    refine terminating_flag (.inr (mem_filter.mpr ⟨h.live hU0 (begunToExit_eq_false hmode), ?_⟩))
    simpa using hne

theorem Life.Sound.erase (hT : v.threads t = some T) {f : Thread → Thread}
    (hbegun : ∀ T, (f T).mode.begunToExit = true) (u : Nat) :
    u ∈ v.process.threadListHead.erase t ↔
      ∃ U, (v.setThread t f).threads u = some U ∧ U.mode.begunToExit = false := by
  rw [h.nodup.mem_erase_iff, h.listed u]
  by_cases hu : u = t
  · subst hu
    simp [Life.setThread, hT, hbegun]
  · simp [Life.setThread, hu]

theorem Life.Sound.retire (hT : v.threads t = some T)
    (hfrom : T.mode = .leaving status) :
    ((v.setProcess fun P =>
      { P with
        activeThreadCount := P.activeThreadCount - 1
        threadListHead := P.threadListHead.erase t }).setThread t fun T =>
      { T with
        exitStatus := status
        signalState := true
        mode := if v.process.activeThreadCount - 1 = 0 then
          .rundown status 0 v.process.handleTable.capacity else .terminated }).Sound := by
  have hlive : T.mode.begunToExit = false := by
    rw [hfrom]
    rfl
  have hmem := h.live hT hlive
  obtain ⟨hphase, hlist, hbegun, hsignals, hsignalState⟩ := h.active_of_live hT hlive
  have hlength : ((v.process.threadListHead.erase t).length : Int) = v.process.activeThreadCount - 1 := by
    rw [length_erase_of_mem hmem, h.counted]
    have := length_pos_of_mem hmem
    omega
  refine ⟨h.table, h.nodup.erase t, ?_, hlength.symm, ?_, ?_⟩
  · refine h.erase hT fun T => ?_
    show Mode.begunToExit (if _ then _ else _) = true
    split <;> rfl
  · intro hterminated u U hU hmode
    rcases threads_setThread hU with ⟨T', rfl, hT', rfl⟩ | ⟨-, hU⟩
    · simp only at hmode
      split at hmode <;> simp at hmode
    · exact h.flagged hterminated u U hU hmode
  · by_cases hlast : v.process.activeThreadCount - 1 = 0
    · -- the others were off the list, and so they are gone
      have hnil : v.process.threadListHead.erase t = [] := by
        refine length_eq_zero_iff.mp ?_
        have := hlength.trans hlast
        exact_mod_cast this
      refine .rundown (t := t) (T := { T with
        exitStatus := status, signalState := true
        mode := .rundown status 0 v.process.handleTable.capacity }) hphase hnil ?_ rfl ?_ .begin
        hsignals hsignalState
      · simp [Life.setThread, Life.setProcess, hT, hlast]
      · intro u U hU hne
        rcases threads_setThread hU with ⟨T', rfl, -, -⟩ | ⟨-, hU⟩
        · exact absurd rfl hne
        · refine hbegun u U hU ?_
          by_contra hnot
          have hu := h.live hU (Bool.eq_false_iff.mpr hnot)
          have : u ∈ v.process.threadListHead.erase t := h.nodup.mem_erase_iff.mpr ⟨hne, hu⟩
          rw [hnil] at this
          cases this
    · refine .active hphase ?_ ?_ hsignals hsignalState
      · intro hnil
        have hnil : v.process.threadListHead.erase t = [] := hnil
        rw [hnil] at hlength
        exact hlast hlength.symm
      · intro u U hU hbegun'
        rcases threads_setThread hU with ⟨T', rfl, -, rfl⟩ | ⟨-, hU⟩
        · exact if_neg hlast
        · exact hbegun u U hU hbegun'

theorem Life.Sound.rundown {status : NtStatus} {index next capacity : Nat} {table : HandleTable} (hT : v.threads t = some T) (hfrom : T.mode = .rundown status index capacity)
    (hturn : obpCloseAllHandlesTurn v.process.handleTable index capacity = .ok (table, some next)) :
    ((v.setTable table).setThread t fun T => { T with mode := .rundown status next capacity }).Sound := by
  obtain ⟨hphase, hlist, hothers, hclosing, hsignals, hsignalState⟩ := h.lastThread hT hfrom
  obtain ⟨hwf, hclosing', -⟩ := (hclosing.turn_ends h.table).of_ok hturn
  have hempty : ∀ u, ¬ ∃ U, (v.setThread t fun T =>
      { T with mode := .rundown status next capacity }).threads u = some U ∧
        U.mode.begunToExit = false := by
    rintro u ⟨U, hU, hmode⟩
    rcases threads_setThread hU with ⟨T', rfl, -, rfl⟩ | ⟨hne, hU⟩
    · cases hmode
    · rw [hothers u U hU hne] at hmode
      cases hmode
  refine ⟨hwf, h.nodup, ?_, h.counted, ?_, ?_⟩
  · intro u
    refine iff_of_false ?_ (hempty u)
    show u ∉ v.process.threadListHead
    rw [hlist]
    exact not_mem_nil
  · intro _ u U hU hmode
    exact absurd ⟨U, hU, begunToExit_eq_false hmode⟩ (hempty u)
  · refine .rundown (t := t) (T := { T with mode := .rundown status next capacity }) hphase hlist ?_
      rfl ?_ (hclosing' next rfl) hsignals hsignalState
    · simp [Life.setThread, Life.setTable, Life.setProcess, hT]
    · intro u U hU hne
      rcases threads_setThread hU with ⟨T', rfl, -, -⟩ | ⟨-, hU⟩
      · exact absurd rfl hne
      · exact hothers u U hU hne

theorem Life.Sound.signal (hT : v.threads t = some T) (hfrom : T.mode = .rundown status index capacity)
    (hturn : obpCloseAllHandlesTurn v.process.handleTable index capacity = .ok (table, none)) :
    (((v.setTable table).setProcess fun P =>
      { P with exitStatus := status, signalState := true, signals := P.signals + 1 }).setThread t
        fun T => { T with mode := .terminated }).Sound := by
  obtain ⟨hphase, hlist, hothers, hclosing, hsignals, hsignalState⟩ := h.lastThread hT hfrom
  obtain ⟨hwf, -, hzero⟩ := (hclosing.turn_ends h.table).of_ok hturn
  have hall : ∀ u U, (v.setThread t fun T => { T with mode := .terminated }).threads u = some U →
      U.mode = .terminated := by
    intro u U hU
    rcases threads_setThread hU with ⟨T', rfl, -, rfl⟩ | ⟨hne, hU⟩
    · rfl
    · exact hothers u U hU hne
  refine ⟨hwf, h.nodup, ?_, h.counted, ?_, ?_⟩
  · intro u
    refine iff_of_false ?_ ?_
    · show u ∉ v.process.threadListHead
      rw [hlist]
      exact not_mem_nil
    · rintro ⟨U, hU, hmode⟩
      rw [hall u U hU] at hmode
      cases hmode
  · intro _ u U hU hmode
    rw [hall u U hU] at hmode
    exact absurd hmode (by simp)
  · refine .exited hphase hlist ⟨t, ?_⟩ hall ?_ rfl (hzero rfl)
    · simp [Life.setThread, Life.setTable, Life.setProcess, hT]
    · show v.process.signals + 1 = 1
      rw [hsignals]

theorem Life.Sound.unstarted (hphase : v.process.phase ≠ .running) :
    (∀ t, v.threads t = none) ∧ v.process.threadListHead = [] ∧ v.process.signals = 0 ∧
      v.process.signalState = false ∧
      ∀ index capacity, v.process.phase = .unwinding index capacity →
        Closing v.process.handleTable index capacity := by
  cases h.stage with
  | unstarted _ hnone hs hst hunwinding =>
    refine ⟨hnone, ?_, hs, hst, hunwinding⟩
    refine eq_nil_iff_forall_not_mem.mpr fun t ht => ?_
    obtain ⟨T, hT, -⟩ := (h.listed t).mp ht
    rw [hnone t] at hT
    cases hT
  | active hp => exact absurd hp hphase
  | rundown hp => exact absurd hp hphase
  | exited hp => exact absurd hp hphase

theorem Life.Sound.start (hphase : v.process.phase = .building)
    (hmode : T.mode = .kernel) (hterminated : v.process.terminated = false) :
    ((v.addThread t T).setProcess fun P =>
      { P with
        phase := .running
        threadListHead := P.threadListHead ++ [t]
        activeThreadCount := 0 + 1 }).Sound := by
  obtain ⟨hnone, hnil, hsignals, hsignalState, -⟩ := h.unstarted (by rw [hphase]; exact nofun)
  obtain ⟨hnodup, hlisted⟩ := h.add (hnone t) hmode
  refine ⟨h.table, hnodup, hlisted, ?_, ?_, .active rfl ?_ ?_ hsignals hsignalState⟩
  · simp [Life.setProcess, Life.addThread, hnil]
  · intro hterminated'
    exact absurd (hterminated.symm.trans hterminated') nofun
  · simp [Life.setProcess]
  · intro u U hU hbegun
    rcases threads_addThread hU with ⟨-, rfl⟩ | ⟨-, hU⟩
    · rw [hmode] at hbegun
      cases hbegun
    · rw [hnone u] at hU
      cases hU

theorem Life.Sound.phase (phase : Phase) (table : HandleTable)
    (hphase : v.process.phase ≠ .running) (hto : phase ≠ .running) (hwf : table.Wf)
    (hunwinding : ∀ index capacity, phase = .unwinding index capacity → Closing table index capacity)
    (hunwound : phase = .unwound → table.inUse = 0) :
    ((v.setTable table).setProcess fun P => { P with phase := phase }).Sound := by
  obtain ⟨hnone, hnil, hsignals, hsignalState, -⟩ := h.unstarted hphase
  refine ⟨hwf, h.nodup, h.listed, h.counted, h.flagged, ?_⟩
  exact .unstarted hto hnone hsignals hsignalState hunwinding hunwound

theorem Life.Sound.abort (hphase : v.process.phase = .building) :
    (v.setProcess fun P => { P with phase := .unwinding 0 P.handleTable.capacity }).Sound := by
  refine h.phase _ v.process.handleTable (by rw [hphase]; exact nofun) nofun h.table ?_ nofun
  rintro _ _ ⟨⟩
  exact .begin

theorem Life.Sound.unwind {next : Option Nat} (hphase : v.process.phase = .unwinding index capacity)
    (hturn : obpCloseAllHandlesTurn v.process.handleTable index capacity = .ok (table, next)) :
    ((v.setTable table).setProcess fun P =>
      { P with phase := next.elim .unwound fun index => .unwinding index capacity }).Sound := by
  have hne : v.process.phase ≠ .running := by
    rw [hphase]
    exact nofun
  obtain ⟨-, -, -, -, hclosing⟩ := h.unstarted hne
  obtain ⟨hwf, hnext, hzero⟩ := ((hclosing _ _ hphase).turn_ends h.table).of_ok hturn
  refine h.phase _ _ hne ?_ hwf ?_ ?_
  · cases next <;> exact nofun
  · cases next with
    | none => exact nofun
    | some i =>
      rintro _ _ ⟨⟩
      exact hnext i rfl
  · cases next with
    | none => exact fun _ => hzero rfl
    | some i => exact nofun

theorem Life.Sound.effect (heffect : Effect v v') : v'.Sound := by
  cases heffect with
  | openHandle haccepts hmade => exact h.openHandle haccepts hmade
  | closeHandle hentry hclosed => exact h.closeHandle hentry hclosed
  | flag exitStatus list => exact h.flag exitStatus list
  | move hT hfrom hto _ => exact h.move hT hfrom hto
  | spawn hfresh hmode haccepts => exact h.spawn hfresh hmode haccepts
  | discard hfresh hmode haccepts => exact h.discard hfresh hmode haccepts
  | kill exitStatus => exact h.kill exitStatus
  | exit exitStatus hT hfrom => exact h.exit exitStatus hT hfrom
  | retire hT hfrom => exact h.retire hT hfrom
  | rundown hT hfrom hturn => exact h.rundown hT hfrom hturn
  | signal hT hfrom hturn => exact h.signal hT hfrom hturn
  | start hphase hmode hterminated => exact h.start hphase hmode hterminated
  | abort hphase => exact h.abort hphase
  | unwind hphase hturn => exact h.unwind hphase hturn
  | delete =>
    exact h.congr .refl rfl h.table h.flagged
      (h.stage.congr .refl rfl rfl rfl rfl (fun _ _ hclosing => hclosing) id)

end

/-! ## What does not change -/

structure Life.Exited (v : Life) : Prop where
  phase : v.process.phase = .running
  count : v.process.activeThreadCount = 0
  terminated : ∀ t T, v.threads t = some T → T.mode = .terminated
  signalled : v.process.signals = 1
  empty : v.process.handleTable.inUse = 0

theorem Life.Sound.exited (h : v.Sound) (hsignalled : v.process.signalState = true) : v.Exited := by
  cases h.stage with
  | unstarted _ _ _ hst => exact absurd (hst.symm.trans hsignalled) nofun
  | active _ _ _ _ hst => exact absurd (hst.symm.trans hsignalled) nofun
  | rundown _ _ _ _ _ _ _ hst => exact absurd (hst.symm.trans hsignalled) nofun
  | exited hp hl _ hall hs _ hz =>
    refine ⟨hp, ?_, hall, hs, hz⟩
    rw [h.counted, hl]
    rfl

structure SameExit (v v' : Life) : Prop where
  exitStatus : v'.process.exitStatus = v.process.exitStatus
  signalState : v'.process.signalState = v.process.signalState
  threads : ∀ t, v'.threads t = none ↔ v.threads t = none

theorem Life.Exited.not_live (h : v.Exited) (hT : v.threads t = some T)
    (hmode : T.mode ≠ .terminated) : False := hmode (h.terminated t T hT)

theorem Life.Exited.not_acceptsThreads (h : v.Exited) : ¬ v.process.AcceptsThreads := by
  rintro ⟨-, hcount, -⟩
  rw [h.count] at hcount
  cases hcount

theorem Life.Exited.not_acceptsHandles (h : v.Exited) : ¬ v.process.AcceptsHandles := by
  rintro (hphase | ⟨-, hcount⟩)
  · exact absurd (hphase.symm.trans h.phase) nofun
  · rw [h.count] at hcount
    cases hcount

theorem Life.Exited.not_phase (h : v.Exited) {phase : Phase} (hphase : v.process.phase = phase)
    (hne : phase ≠ .running) : False := hne (hphase.symm.trans h.phase)

theorem Life.Exited.effect (h : v.Exited) (heffect : Effect v v') : SameExit v v' := by
  cases heffect with
  | openHandle haccepts => exact absurd haccepts h.not_acceptsHandles
  | closeHandle => exact ⟨rfl, rfl, fun _ => .rfl⟩
  | flag => exact ⟨rfl, rfl, fun t => by simp [Life.flag]⟩
  | move hT hfrom =>
    refine (h.not_live hT ?_).elim
    rintro hmode
    rw [hmode] at hfrom
    simp at hfrom
  | spawn _ _ haccepts => exact absurd haccepts h.not_acceptsThreads
  | discard _ _ haccepts => exact absurd haccepts h.not_acceptsThreads
  | kill => exact ⟨rfl, rfl, fun t => by simp [Life.flag, Life.setProcess]⟩
  | exit _ hT hfrom => exact (h.not_live hT (by rw [hfrom]; exact nofun)).elim
  | retire hT hfrom => exact (h.not_live hT (by rw [hfrom]; exact nofun)).elim
  | rundown hT hfrom => exact (h.not_live hT (by rw [hfrom]; exact nofun)).elim
  | signal hT hfrom => exact (h.not_live hT (by rw [hfrom]; exact nofun)).elim
  | start hphase => exact (h.not_phase hphase nofun).elim
  | abort hphase => exact (h.not_phase hphase nofun).elim
  | unwind hphase => exact (h.not_phase hphase nofun).elim
  | delete => exact ⟨rfl, rfl, fun _ => .rfl⟩

theorem Effect.user (heffect : Effect v v') (hT : v'.threads t = some T) (hmode : T.mode = .user) :
    ∃ T0, v.threads t = some T0 ∧
      (T0.mode = .user ∨ T0.mode = .kernel ∧ T0.terminating = false) := by
  cases heffect with
  | openHandle | closeHandle | abort | unwind | delete => exact ⟨T, hT, .inl hmode⟩
  | flag | kill =>
    obtain ⟨T0, hT0, rfl⟩ := threads_flag hT
    rw [mode_flag] at hmode
    exact ⟨T0, hT0, .inl hmode⟩
  | move hT0 hfrom _ huser =>
    rcases threads_setThread hT with ⟨T1, rfl, hT1, rfl⟩ | ⟨-, hT⟩
    · cases hT0.symm.trans hT1
      exact ⟨_, hT0, hfrom.symm.imp id fun h => ⟨h, huser hmode⟩⟩
    · exact ⟨T, hT, .inl hmode⟩
  | spawn _ hkernel =>
    rcases threads_addThread hT with ⟨-, rfl⟩ | ⟨-, hT⟩
    · rw [hkernel] at hmode
      cases hmode
    · exact ⟨T, hT, .inl hmode⟩
  | discard _ hkernel =>
    rcases threads_addThread hT with ⟨-, rfl⟩ | ⟨-, hT⟩
    · rw [hkernel] at hmode
      cases hmode
    · exact ⟨T, hT, .inl hmode⟩
  | start _ hkernel =>
    rcases threads_addThread hT with ⟨-, rfl⟩ | ⟨-, hT⟩
    · rw [hkernel] at hmode
      cases hmode
    · exact ⟨T, hT, .inl hmode⟩
  | exit =>
    rcases threads_setThread hT with ⟨T1, rfl, -, rfl⟩ | ⟨-, hT⟩
    · cases hmode
    · obtain ⟨T0, hT0, rfl⟩ := threads_flag hT
      rw [mode_flag] at hmode
      exact ⟨T0, hT0, .inl hmode⟩
  | retire =>
    rcases threads_setThread hT with ⟨T1, rfl, -, rfl⟩ | ⟨-, hT⟩
    · simp only at hmode
      split at hmode <;> cases hmode
    · exact ⟨T, hT, .inl hmode⟩
  | rundown | signal =>
    rcases threads_setThread hT with ⟨T1, rfl, -, rfl⟩ | ⟨-, hT⟩
    · cases hmode
    · exact ⟨T, hT, .inl hmode⟩

theorem Effect.terminated (heffect : Effect v v') (h : v.process.terminated = true) :
    v'.process.terminated = true := by
  cases heffect <;> first | exact h | rfl

end

end Proskrnl.Ps
