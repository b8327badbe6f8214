import Proskrnl.Ps.Exit

/-!
# Protection from close

`NtSetInformationObject` of `kernel/ob/handle.c` beside the steps of a system, and what a step does
to an entry whose attributes carry `OBJ_PROTECT_CLOSE`. `NtClose` asks for the flag; the close of the
source of a duplication does not.
-/

namespace Proskrnl.Ps
open List Option

def objectHandleFlagInformation : Nat := 4

/-- `OBJECT_HANDLE_FLAG_INFORMATION`. -/
structure HandleFlags where
  inheritHandle : Bool
  protectFromClose : Bool
  deriving DecidableEq

def HandleFlags.write (info : HandleFlags) (attributes : UInt32) : UInt32 :=
  let attributes := attributes &&& ~~~(objInherit ||| objProtectClose)
  let attributes := if info.inheritHandle then attributes ||| objInherit else attributes
  if info.protectFromClose then attributes ||| objProtectClose else attributes

/-- `NtSetInformationObject`, with what `KiCopyFromUser` gives. -/
def ntSetInformationObject (s : System) (t handle infoClass length : Nat)
    (copied : Except NtStatus HandleFlags) : System × NtStatus :=
  if infoClass ≠ objectHandleFlagInformation then (s, statusNotImplemented)
  else if length < 2 then (s, statusInvalidBufferSize)
  else
    match copied with
    | .error status => (s, status)
    | .ok info =>
      if 2 ^ 64 - 6 ≤ handle then (s, statusAccessDenied)
      else
        match s.processOf t with
        | none => (s, statusInvalidHandle)
        | some p =>
          match obpEntryInTable (s.table p) handle with
          | none => (s, statusInvalidHandle)
          | some (index, entry) =>
            let entry := { entry with attributes := info.write entry.attributes }
            (s.setTable p { s.table p with entries := (s.table p).entries.set index (some entry) },
              statusSuccess)

inductive HandleOp
  | system (op : Op)
  | setInformation (t handle infoClass length : Nat) (copied : Except NtStatus HandleFlags)

def HandleOp.enabled (s : System) : HandleOp → Bool
  | .system op => op.enabled s
  | .setInformation t .. => s.calling t

def handleStep (s : System) : HandleOp → Except Halt System
  | .system op => step s op
  | .setInformation t handle infoClass length copied =>
    .ok (ntSetInformationObject s t handle infoClass length copied).1

/-- The states that a system comes to by steps that are possible and allowed. -/
inductive HandleRun (allowed : HandleOp → System → Prop) (s0 : System) : System → Prop
  | refl : HandleRun allowed s0 s0
  | step {s s' : System} (op : HandleOp) : HandleRun allowed s0 s → op.enabled s → allowed op s →
    handleStep s op = .ok s' → HandleRun allowed s0 s'

def System.entryAt (s : System) (p index : Nat) : Option HandleEntry :=
  (s.table p).entries[index]?.join

/-- An entry whose attributes carry `OBJ_PROTECT_CLOSE`. -/
def HandleEntry.IsProtected (entry : HandleEntry) : Prop := entry.attributes &&& objProtectClose ≠ 0

instance (entry : HandleEntry) : Decidable entry.IsProtected := by
  unfold HandleEntry.IsProtected
  infer_instance

/-- The protection of an entry ends: `NtSetInformationObject` clears it, or its process is run
down. -/
def HandleOp.Releases (p index : Nat) (s : System) : HandleOp → Prop
  | .setInformation t handle _ _ copied =>
    s.processOf t = some p ∧ (∃ entry, obpEntryInTable (s.table p) handle = some (index, entry)) ∧
      ∃ info, copied = .ok info ∧ info.protectFromClose = false
  | .system (.rundown t) => s.processOf t = some p
  | .system (.unwind q) => q = p
  | _ => False

/-- A step closes the source of a duplication, and the entry is protected: the call can resolve its
processes and has made the handle that it is asked for. -/
def HandleOp.ClosesProtected (s : System) : HandleOp → Prop
  | .system (.duplicate t sourceProcess sourceHandle targetProcess wantsHandle _ _ options env) =>
    options &&& duplicateCloseSource ≠ 0 ∧
    (∃ sourceProc targetProc found,
      referenceProcess s t sourceProcess processDupHandle = .ok sourceProc ∧
      referenceProcess s t targetProcess processDupHandle = .ok targetProc ∧
      (duplicateSource s t sourceProc sourceHandle).isSome ∧
      (wantsHandle = true → ntSuccess env.probe ∧
        (obpGrowTable (s.table targetProc) env.pool).isSome) ∧
      obpEntryInTable (s.table sourceProc) sourceHandle = some found ∧ found.2.IsProtected)
  | _ => False

section
variable {table table' : HandleTable} {entry e : HandleEntry} {pool : Bool} {i index : Nat}

theorem obpGrowTable_kept (hgrow : obpGrowTable table pool = some table')
    (hentry : table.entries[i]?.join = some e) : table'.entries[i]?.join = some e := by
  unfold obpGrowTable at hgrow
  split at hgrow
  · rename_i hnil
    rw [hnil] at hentry
    cases hentry
  · split at hgrow
    · split at hgrow
      · cases hgrow
        have hlt : i < table.entries.length := Slots.lt_length hentry
        rw [getElem?_append_left hlt]
        exact hentry
      · cases hgrow
    · cases hgrow
      exact hentry

theorem obpCreateHandleInTable_kept
    (hmade : obpCreateHandleInTable table entry pool = .ok (some table'))
    (hentry : table.entries[i]?.join = some e) : table'.entries[i]?.join = some e := by
  unfold obpCreateHandleInTable at hmade
  cases hgrow : obpGrowTable table pool with
  | none =>
    rw [hgrow] at hmade
    cases hmade
  | some grown =>
    simp only [hgrow] at hmade
    cases hfree : grown.entries.findIdx? Option.isNone with
    | none =>
      rw [hfree] at hmade
      cases hmade
    | some j =>
      rw [hfree] at hmade
      cases hmade
      have hkept := obpGrowTable_kept hgrow hentry
      have hne : i ≠ j := by
        rintro rfl
        obtain ⟨hlt, hnone, -⟩ := findIdx?_eq_some_iff_getElem.mp hfree
        rw [getElem?_eq_getElem hlt, isNone_iff_eq_none.mp hnone] at hkept
        cases hkept
      show (grown.entries.set j (some entry))[i]?.join = some e
      rw [Slots.join_set_of_ne hne]
      exact hkept

theorem obpCloseHandleEntryIn_kept (hclosed : obpCloseHandleEntryIn table index = .ok table')
    (hne : i ≠ index) (hentry : table.entries[i]?.join = some e) :
    table'.entries[i]?.join = some e := by
  unfold obpCloseHandleEntryIn at hclosed
  split at hclosed
  · cases hclosed
  · cases hclosed
    exact (Slots.join_set_of_ne hne none).trans hentry

end

section
variable {s s' s'' s0 : System} {p q t i index : Nat} {e : HandleEntry} {f : Process → Process}
  {table : HandleTable}

def Keeps (s s' : System) : Prop := ∀ p i e, s.entryAt p i = some e → s'.entryAt p i = some e

theorem Keeps.refl : Keeps s s := fun _ _ _ h => h

theorem Keeps.trans (h : Keeps s s') (h' : Keeps s' s'') : Keeps s s'' :=
  fun p i e hentry => h' p i e (h p i e hentry)

theorem table_setProcess (hf : ∀ P, (f P).handleTable = P.handleTable) :
    (s.setProcess q f).table p = s.table p := by
  unfold System.table System.setProcess
  simp only [getElem?_modify]
  cases s.processes[p]? with
  | none => rfl
  | some P =>
    simp only [map_some, getD_some]
    split
    · exact hf P
    · rfl

theorem keeps_setProcess (hf : ∀ P, (f P).handleTable = P.handleTable) :
    Keeps s (s.setProcess p f) := by
  intro q i e hentry
  rw [System.entryAt, table_setProcess hf]
  exact hentry

theorem entryAt_setThread {g : Thread → Thread} : (s.setThread t g).entryAt p i = s.entryAt p i := rfl

theorem table_setTable (hp : p < s.processes.length) : (s.setTable p table).table p = table := by
  unfold System.table System.setTable System.setProcess
  simp [hp]

theorem table_setTable_ne (hne : q ≠ p) : (s.setTable p table).table q = s.table q := by
  unfold System.table System.setTable System.setProcess
  simp [Ne.symm hne]

theorem lt_of_entryAt (hentry : s.entryAt p i = some e) : p < s.processes.length := by
  by_contra hge
  have hnone : s.processes[p]? = none := getElem?_eq_none (by omega)
  unfold System.entryAt System.table at hentry
  rw [hnone] at hentry
  cases hentry

theorem entryAt_setTable (hentry : s.entryAt q i = some e)
    (h : q = p → table.entries[i]?.join = some e) : (s.setTable p table).entryAt q i = some e := by
  unfold System.entryAt
  by_cases hq : q = p
  · subst hq
    rw [table_setTable (lt_of_entryAt hentry)]
    exact h rfl
  · rw [table_setTable_ne hq]
    exact hentry

theorem keeps_setTable (h : ∀ i e, s.entryAt p i = some e → table.entries[i]?.join = some e) :
    Keeps s (s.setTable p table) := by
  intro q i e hentry
  refine entryAt_setTable hentry ?_
  rintro rfl
  exact h i e hentry

theorem keeps_createThreadObject : Keeps s (pspCreateThreadObject s p) :=
  keeps_setProcess (s := s) fun _ => rfl

theorem keeps_unwindUnstartedThread (h : pspUnwindUnstartedThread s p t = .ok s') : Keeps s s' := by
  unfold pspUnwindUnstartedThread at h
  split at h
  · cases h
  · split at h
    · cases h
      exact keeps_setProcess (s := s) fun _ => rfl
    · cases h

variable {env : Env} {status : NtStatus} {attributes : UInt32} {handle : Nat}

theorem keeps_createHandle {entry : HandleEntry}
    (h : obpCreateHandle s t entry env = .ok (s', status)) : Keeps s s' := by
  unfold obpCreateHandle at h
  split at h
  · cases h
    exact .refl
  · split at h
    · cases h
      exact .refl
    · obtain ⟨made, hmade, heq⟩ := Outcome.map_eq_ok h
      cases made with
      | none =>
        cases heq
        exact .refl
      | some table =>
        cases heq
        exact keeps_setTable fun i e hentry => obpCreateHandleInTable_kept hmade hentry

theorem keeps_createUserThread {access : AccessMask}
    (h : pspCreateUserThread s t p access attributes env = .ok (s', status)) :
    Keeps s s' := by
  unfold pspCreateUserThread at h
  split at h
  · cases h
    exact .refl
  · obtain ⟨⟨s1, status1⟩, hmade, h⟩ := Outcome.bind_eq_ok h
    have hkept := keeps_createThreadObject.trans (keeps_createHandle hmade)
    dsimp only at h
    split at h
    · cases h
      exact hkept
    · obtain ⟨s2, hunwound, h⟩ := Outcome.bind_eq_ok h
      cases h
      exact hkept.trans (keeps_unwindUnstartedThread hunwound)

theorem keeps_closeSource {sourceHandle : Nat} {options : UInt32}
    (h : closeSource s p sourceHandle options = .ok s') (hentry : s.entryAt q i = some e)
    (hspared : options &&& duplicateCloseSource ≠ 0 → q = p →
      obpEntryInTable (s.table p) sourceHandle ≠ some (i, e)) : s'.entryAt q i = some e := by
  unfold closeSource at h
  split at h
  · cases h
    exact hentry
  · rename_i hoptions
    split at h
    · cases h
      exact hentry
    · rename_i index found hfound
      obtain ⟨table, hclosed, rfl⟩ := Outcome.map_eq_ok h
      refine entryAt_setTable hentry ?_
      rintro rfl
      refine obpCloseHandleEntryIn_kept hclosed ?_ hentry
      rintro rfl
      have heq := some.inj ((obpEntryInTable_eq_some hfound).symm.trans hentry)
      exact hspared hoptions rfl (heq ▸ hfound)

theorem obpEntryInTable_of_entry {table' : HandleTable}
    (hfound : obpEntryInTable table handle = some (i, e))
    (hentry : table'.entries[i]?.join = some e) : obpEntryInTable table' handle = some (i, e) := by
  unfold obpEntryInTable at hfound ⊢
  split at hfound
  · cases hfound
  · rename_i hne
    rw [if_neg hne]
    obtain ⟨e', -, heq⟩ := map_eq_some_iff.mp hfound
    obtain ⟨rfl, rfl⟩ := Prod.mk.inj heq
    rw [hentry]
    rfl

theorem obpGrowTable_isSome {entry : HandleEntry} {pool : Bool} {table' : HandleTable}
    (hmade : obpCreateHandleInTable table entry pool = .ok (some table')) :
    (obpGrowTable table pool).isSome := by
  unfold obpCreateHandleInTable at hmade
  split at hmade
  · cases hmade
  · rename_i hgrow
    rw [hgrow]
    rfl

theorem entry_duplicate {sourceProcess sourceHandle targetProcess : Nat} {wantsHandle : Bool}
    {granted : AccessMask} {options : UInt32}
    (h : ntDuplicateObject s t sourceProcess sourceHandle targetProcess wantsHandle granted attributes
      options env = .ok (s', status))
    (hspared : ¬ HandleOp.ClosesProtected s (.system (.duplicate t sourceProcess sourceHandle
      targetProcess wantsHandle granted attributes options env)))
    (hentry : s.entryAt p i = some e) (hprotected : e.IsProtected) : s'.entryAt p i = some e := by
  unfold ntDuplicateObject at h
  split at h
  · cases h
    exact hentry
  · rename_i hprobe
    split at h
    · cases h
      exact hentry
    · cases h
      exact hentry
    · rename_i sourceProc targetProc hsource htarget
      split at h
      · cases h
        exact hentry
      · rename_i body sourceAttributes hbody
        -- the call closes the entry only if it names it in its own table
        have hclose (hroom : wantsHandle = true → ntSuccess env.probe ∧
              (obpGrowTable (s.table targetProc) env.pool).isSome)
            (hoptions : options &&& duplicateCloseSource ≠ 0) (hp : p = sourceProc) :
            obpEntryInTable (s.table sourceProc) sourceHandle ≠ some (i, e) := by
          intro hfound
          refine hspared ⟨hoptions, sourceProc, targetProc, (i, e), hsource, htarget, ?_, hroom, hfound,
            hprotected⟩
          rw [hbody]
          rfl
        split at h
        · rename_i hwants
          obtain ⟨s1, hclosed, heq⟩ := Outcome.map_eq_ok h
          cases heq
          exact keeps_closeSource hclosed hentry (hclose fun htrue => absurd htrue hwants)
        · rename_i hwants
          obtain ⟨made, hmade, h⟩ := Outcome.bind_eq_ok h
          cases made with
          | none =>
            cases h
            exact hentry
          | some table =>
            obtain ⟨s1, hclosed, h⟩ := Outcome.bind_eq_ok h
            cases h
            have hopened : Keeps s (s.setTable targetProc table) :=
              keeps_setTable fun i e hentry => obpCreateHandleInTable_kept hmade hentry
            refine keeps_closeSource hclosed (hopened p i e hentry) ?_
            intro hoptions hp hfound
            have hroom : wantsHandle = true → ntSuccess env.probe ∧
                (obpGrowTable (s.table targetProc) env.pool).isSome := by
              intro htrue
              exact ⟨by simpa [htrue] using hprobe, obpGrowTable_isSome hmade⟩
            exact hclose hroom hoptions hp (obpEntryInTable_of_entry hfound (hp ▸ hentry))

theorem entry_close (h : ntClose s t handle = .ok (s', status))
    (hentry : s.entryAt p i = some e) (hprotected : e.IsProtected) : s'.entryAt p i = some e := by
  unfold ntClose at h
  split at h
  · cases h
    exact hentry
  · split at h
    · cases h
      exact hentry
    · rename_i q hq
      split at h
      · cases h
        exact hentry
      · rename_i index found hfound
        split at h
        · cases h
          exact hentry
        · rename_i hunprotected
          obtain ⟨table, hclosed, heq⟩ := Outcome.map_eq_ok h
          cases heq
          refine entryAt_setTable hentry ?_
          rintro rfl
          refine obpCloseHandleEntryIn_kept hclosed ?_ hentry
          rintro rfl
          have heq : found = e :=
            some.inj ((obpEntryInTable_eq_some hfound).symm.trans hentry)
          exact hunprotected (heq ▸ hprotected)

theorem keeps_threads {threads : List Thread} : Keeps s { s with threads := threads } :=
  fun _ _ _ h => h

theorem keeps_terminateProcess {processHandle : Nat} {exitStatus : NtStatus} :
    Keeps s (ntTerminateProcess s t processHandle exitStatus).1 := by
  unfold ntTerminateProcess
  split
  · exact .refl
  · split
    · exact keeps_threads
    · split
      · exact .refl
      · rename_i self _ q _
        have h : Keeps s (s.setProcess q fun P => { P with terminated := true }) :=
          keeps_setProcess fun _ => rfl
        dsimp only
        split
        · exact h.trans keeps_threads
        · exact h.trans keeps_threads

theorem keeps_terminateThread {threadHandle : Nat} {exitStatus : NtStatus} :
    Keeps s (ntTerminateThread s t threadHandle exitStatus).1 := by
  unfold ntTerminateThread
  split
  · exact keeps_threads
  · split
    · exact .refl
    · split
      · exact keeps_threads
      · exact keeps_threads
    · exact .refl

theorem keeps_retire : Keeps s (pspRetireCurrentThread s t status) := by
  unfold pspRetireCurrentThread
  split
  · exact .refl
  · exact keeps_setProcess (s := s) fun _ => rfl

theorem keeps_allocate {creator : Option Nat} {options : CreateOptions}
    (h : pspAllocateProcess s creator options env = .ok s') : Keeps s s' := by
  obtain ⟨table, -, h⟩ := Outcome.bind_eq_ok h
  cases h
  intro p i e hentry
  unfold System.entryAt System.table at hentry ⊢
  rw [getElem?_append_left (lt_of_entryAt hentry)]
  exact hentry

theorem keeps_rundownTurn {capacity : Nat}
    (h : pspRundownTurn s t q status index capacity = .ok s') (hne : p ≠ q)
    (hentry : s.entryAt p i = some e) : s'.entryAt p i = some e := by
  unfold pspRundownTurn at h
  obtain ⟨⟨table, next⟩, -, rfl⟩ := Outcome.map_eq_ok h
  have hkept : (s.setTable q table).entryAt p i = some e :=
    entryAt_setTable hentry fun hp => absurd hp hne
  cases next with
  | some index => exact hkept
  | none =>
    dsimp only
    rw [entryAt_setThread]
    refine keeps_setProcess ?_ p i e hkept
    exact fun _ => rfl

theorem keeps_unwindTurn {capacity : Nat} (h : pspUnwindTurn s q index capacity = .ok s')
    (hne : p ≠ q) (hentry : s.entryAt p i = some e) : s'.entryAt p i = some e := by
  unfold pspUnwindTurn at h
  obtain ⟨⟨table, next⟩, -, rfl⟩ := Outcome.map_eq_ok h
  refine keeps_setProcess ?_ p i e ?_
  · exact fun _ => rfl
  · exact entryAt_setTable hentry fun hp => absurd hp hne

theorem keeps_fault {o : Option Nat} :
    Keeps s (o.elim s fun p => pspExitCurrentProcess s t p status) := by
  cases o with
  | none => exact .refl
  | some p => exact keeps_threads

theorem keeps_edge : Keeps s (kiProcessPendingUserSignals s t) := by
  unfold kiProcessPendingUserSignals
  split
  · exact .refl
  · split
    · exact keeps_threads
    · exact keeps_threads

theorem keeps_createThread {processHandle : Nat} {access : AccessMask}
    (h : ntCreateThreadEx s t processHandle access attributes env = .ok (s', status)) : Keeps s s' := by
  unfold ntCreateThreadEx at h
  split at h
  · cases h
    exact .refl
  · exact keeps_createUserThread h

/-- A step of the system takes no protected entry, save that of a source that it closes, and those of
a process that is run down. -/
theorem entry_step {op : Op} (h : step s op = .ok s')
    (hspared : ¬ HandleOp.ClosesProtected s (.system op))
    (hheld : ¬ HandleOp.Releases p i s (.system op)) (hentry : s.entryAt p i = some e)
    (hprotected : e.IsProtected) : s'.entryAt p i = some e := by
  cases op with
  | trap t =>
    cases h
    exact hentry
  | fault t status =>
    cases h
    exact keeps_fault p i e hentry
  | edge t =>
    cases h
    exact keeps_edge p i e hentry
  | createThread t processHandle access attributes env =>
    obtain ⟨⟨s1, status⟩, hmade, rfl⟩ := Outcome.map_eq_ok h
    exact keeps_createThread hmade p i e hentry
  | inject q =>
    cases h
    exact keeps_createThreadObject p i e hentry
  | terminateThread t threadHandle exitStatus =>
    cases h
    exact keeps_terminateThread p i e hentry
  | terminateProcess t processHandle exitStatus =>
    cases h
    exact keeps_terminateProcess p i e hentry
  | terminateMember q exitStatus =>
    cases h
    exact hentry
  | createHandle t entry env =>
    obtain ⟨⟨s1, status⟩, hmade, rfl⟩ := Outcome.map_eq_ok h
    exact keeps_createHandle hmade p i e hentry
  | duplicate t sourceProcess sourceHandle targetProcess wantsHandle granted attributes options env =>
    obtain ⟨⟨s1, status⟩, hmade, rfl⟩ := Outcome.map_eq_ok h
    exact entry_duplicate hmade hspared hentry hprotected
  | close t handle =>
    obtain ⟨⟨s1, status⟩, hclosed, rfl⟩ := Outcome.map_eq_ok h
    exact entry_close hclosed hentry hprotected
  | retire t =>
    simp only [step] at h
    split at h
    · cases h
      exact keeps_retire p i e hentry
    · cases h
      exact hentry
  | rundown t =>
    simp only [step] at h
    split at h
    · cases h
      exact hentry
    · rename_i T hT
      split at h
      · refine keeps_rundownTurn h ?_ hentry
        rintro rfl
        exact hheld (processOf_eq hT)
      · cases h
        exact hentry
  | allocate creator options env => exact keeps_allocate h p i e hentry
  | start q =>
    cases h
    refine keeps_createThreadObject p i e (keeps_setProcess ?_ p i e hentry)
    exact fun _ => rfl
  | abort q =>
    cases h
    refine keeps_setProcess ?_ p i e hentry
    exact fun _ => rfl
  | unwind q =>
    simp only [step] at h
    split at h
    · refine keeps_unwindTurn h ?_ hentry
      rintro rfl
      exact hheld rfl
    · cases h
      exact hentry
  | delete q =>
    simp only [step, pspDeleteProcess] at h
    split at h
    · cases h
      refine keeps_setProcess ?_ p i e hentry
      exact fun _ => rfl
    · cases h

theorem write_protected {info : HandleFlags}
    (h : info.protectFromClose = true) : info.write attributes &&& objProtectClose ≠ 0 := by
  have habsorb (x : UInt32) : (x ||| objProtectClose) &&& objProtectClose = objProtectClose := by
    apply UInt32.toBitVec_inj.mp
    ext j
    simp only [UInt32.toBitVec_and, UInt32.toBitVec_or, BitVec.getElem_and, BitVec.getElem_or]
    exact Bool.and_eq_right_iff_imp.mpr fun h => by rw [h, Bool.or_true]
  unfold HandleFlags.write
  simp only [h, if_true, habsorb]
  decide

theorem entry_setInformation {infoClass length : Nat} {copied : Except NtStatus HandleFlags}
    (hheld : ¬ HandleOp.Releases p i s (.setInformation t handle infoClass length copied))
    (hentry : s.entryAt p i = some e) (hprotected : e.IsProtected) :
    ∃ attributes : UInt32, (ntSetInformationObject s t handle infoClass length copied).1.entryAt p i =
      some { e with attributes := attributes } ∧ attributes &&& objProtectClose ≠ 0 := by
  have hsame : ∃ attributes : UInt32, s.entryAt p i = some { e with attributes := attributes } ∧
      attributes &&& objProtectClose ≠ 0 := ⟨e.attributes, hentry, hprotected⟩
  unfold ntSetInformationObject
  split
  · exact hsame
  · split
    · exact hsame
    · split
      · exact hsame
      · rename_i info
        split
        · exact hsame
        · split
          · exact hsame
          · rename_i q hq
            split
            · exact hsame
            · rename_i index found hfound
              have hat := obpEntryInTable_eq_some hfound
              by_cases hhit : p = q ∧ i = index
              · obtain ⟨rfl, rfl⟩ := hhit
                obtain rfl : found = e := some.inj (hat.symm.trans hentry)
                have hprotect : info.protectFromClose = true := by
                  by_contra hclear
                  exact hheld ⟨hq, ⟨found, hfound⟩, info, rfl, Bool.eq_false_iff.mpr hclear⟩
                refine ⟨info.write found.attributes, ?_, write_protected hprotect⟩
                unfold System.entryAt
                rw [table_setTable (lt_of_entryAt hentry)]
                exact Slots.join_set_self (Slots.lt_length hat) _
              · refine ⟨e.attributes, entryAt_setTable hentry ?_, hprotected⟩
                rintro rfl
                exact (Slots.join_set_of_ne (fun hi => hhit ⟨rfl, hi⟩) _).trans hentry

/-- An entry that is protected names its object, with its access, until the protection is cleared or
the process is run down, as long as no duplication closes a source that is protected. -/
theorem closeProtection_kept
    (hrun : HandleRun (fun op s => ¬ op.ClosesProtected s ∧ ¬ op.Releases p i s) s s')
    (hentry : s.entryAt p i = some e) (hprotected : e.IsProtected) :
    ∃ e', s'.entryAt p i = some e' ∧ e'.body = e.body ∧ e'.grantedAccess = e.grantedAccess ∧
      e'.IsProtected := by
  induction hrun with
  | refl => exact ⟨e, hentry, rfl, rfl, hprotected⟩
  | step op hrun hop hallowed hstep ih =>
    obtain ⟨e', hentry', hbody, haccess, hprotected'⟩ := ih
    obtain ⟨hspared, hheld⟩ := hallowed
    cases op with
    | system op =>
      exact ⟨e', entry_step hstep hspared hheld hentry' hprotected', hbody, haccess, hprotected'⟩
    | setInformation t handle infoClass length copied =>
      obtain ⟨attributes, hafter, hflag⟩ := entry_setInformation hheld hentry' hprotected'
      cases hstep
      exact ⟨_, hafter, hbody, haccess, hflag⟩

theorem handleRun_of_ops {ops : List Op} (h : HandleRun (fun _ _ => True) s0 s)
    (hops : runOps (fun _ _ => true) ops s = some s') : HandleRun (fun _ _ => True) s0 s' := by
  induction ops generalizing s with
  | nil => exact some.inj hops ▸ h
  | cons op ops ih =>
    obtain ⟨s1, hop, -, hstep, hops⟩ := runOps_cons hops
    exact ih (h.step (.system op) hop trivial hstep) hops

end

def protectedHandle : HandleEntry := ⟨.other 5, 3, objProtectClose⟩

def openProtected : List Op :=
  [.allocate none {} {}, .start 0, .createHandle 0 protectedHandle {}]

/-- `NtClose` refuses. -/
theorem closeProtection_kept_sample : ∃ s s', HandleRun (fun _ _ => True) {} s ∧
    s.entryAt 0 0 = some protectedHandle ∧ step s (.close 0 4) = .ok s' ∧
    ∃ e', s'.entryAt 0 0 = some e' ∧ e'.body = .other 5 ∧ e'.grantedAccess = 3 ∧ e'.IsProtected := by
  have hrun : (runOps (fun _ _ => true) openProtected {}).any fun s =>
      s.entryAt 0 0 = some protectedHandle ∧ (Op.close 0 4).enabled s = true ∧
        (step s (.close 0 4)).toOption.isSome = true := by decide +kernel
  obtain ⟨s, hs, hafter⟩ := Option.any_eq_true _ _ |>.mp hrun
  obtain ⟨hentry, hop, hstep⟩ := of_decide_eq_true hafter
  cases hclose : step s (.close 0 4) with
  | error halt =>
    rw [hclose] at hstep
    cases hstep
  | ok s' =>
    refine ⟨s, s', handleRun_of_ops .refl hs, hentry, hclose, ?_⟩
    exact closeProtection_kept (p := 0) (i := 0)
      (.step (.system (.close 0 4)) .refl hop ⟨fun h => h, fun h => h⟩ hclose) hentry
      (by decide)

def closeSourceOnly : Op :=
  .duplicate 0 ntCurrentProcess 4 ntCurrentProcess false 0 0 duplicateCloseSource {}

theorem closeProtection_lost : ¬ ∀ (s s' : System) (p i : Nat) (e : HandleEntry),
    HandleRun (fun _ _ => True) {} s → HandleRun (fun op s => ¬ op.Releases p i s) s s' →
    s.entryAt p i = some e → e.IsProtected →
    ∃ e', s'.entryAt p i = some e' ∧ e'.body = e.body ∧ e'.grantedAccess = e.grantedAccess ∧
      e'.IsProtected := by
  intro h
  have hrun : (runOps (fun _ _ => true) openProtected {}).any fun s =>
      s.entryAt 0 0 = some protectedHandle ∧ closeSourceOnly.enabled s = true ∧
        ((step s closeSourceOnly).toOption.any fun s' => s'.entryAt 0 0 = none) = true := by
    decide +kernel
  obtain ⟨s, hs, hafter⟩ := Option.any_eq_true _ _ |>.mp hrun
  obtain ⟨hentry, hop, hstep⟩ := of_decide_eq_true hafter
  cases hclosed : step s closeSourceOnly with
  | error halt =>
    rw [hclosed] at hstep
    cases hstep
  | ok s' =>
    rw [hclosed] at hstep
    have hnone : s'.entryAt 0 0 = none := of_decide_eq_true hstep
    obtain ⟨e', he', -⟩ := h s s' 0 0 protectedHandle (handleRun_of_ops .refl hs)
      (.step (.system closeSourceOnly) .refl hop (fun h => h) hclosed) hentry (by decide)
    cases hnone.symm.trans he'

end Proskrnl.Ps
