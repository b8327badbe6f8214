import Proskrnl.Ps.Process
import Proskrnl.Lib.Rtl

/-!
# Objects

`kernel/ob/object.c` and the resolution of a handle in `kernel/ob/handle.c`. An object is its header
with as much of its body as the object manager reads: the list of a directory and the target of a
symbolic link. A body is zeroed until its creator initialises it.
-/

namespace Proskrnl.Ob
open Ps (Body HandleTable HandleEntry AccessMask)

inductive ObjectType
  | userApcReserve
  | ioCompletionReserve
  | event
  | mutant
  | semaphore
  | timer
  | keyedEvent
  | directory
  | symbolicLink
  | section
  | thread
  | debugObject
  | job
  | process
  | token
  | key
  | device
  | file
  | ioCompletion
  deriving DecidableEq

inductive ObjectBody
  | zeroed
  | directory (entryListHead : List Body)
  | symbolicLink (target : WStr)
  | other
  deriving DecidableEq

/-- `OBJECT_HEADER` and the body behind it. An empty name is one that was never given. -/
structure Object where
  type : ObjectType
  pointerCount : Nat
  handleCount : Nat := 0
  permanent : Bool := false
  parentDirectory : Option Body := none
  name : WStr := []
  /-- A security descriptor is stored. -/
  secured : Bool := false
  body : ObjectBody := .zeroed
  deriving DecidableEq

/-- The objects, the body of the root directory, and the handle table of each process. -/
structure ObState where
  objects : Body → Option Object
  root : Body
  tables : Nat → HandleTable

/-- Assertions, and what a kernel does with memory that is not an object. -/
inductive Halt
  /-- `ObfReferenceObject`: `pointerCount > 0` -/
  | deadReference
  /-- `ObDereferenceObject`: `pointerCount > 0` -/
  | doubleDereference
  /-- `ObDereferenceObject`: `handleCount == 0` -/
  | handlesOpen
  /-- `ObDereferenceObject`: `parentDirectory == 0` -/
  | stillNamed
  /-- An assertion of the delete procedure of a type. -/
  | deleteProcedure
  /-- The list of a directory whose body is zeroed. -/
  | zeroedDirectory
  /-- `MiAllocatePool` of no bytes. -/
  | emptyAllocation
  /-- `ObpLinkObjectName`: no parent and no name yet. -/
  | linkedTwice
  | handleTable (halt : Ps.Halt)
  deriving DecidableEq

namespace ObState

def setObject (s : ObState) (b : Body) (o : Object) : ObState :=
  { s with objects := Function.update s.objects b (some o) }

def free (s : ObState) (b : Body) : ObState := { s with objects := Function.update s.objects b none }

def setTable (s : ObState) (p : Nat) (table : HandleTable) : ObState :=
  { s with tables := Function.update s.tables p table }

def bump (s : ObState) (b : Body) : ObState :=
  match s.objects b with
  | none => s
  | some o => s.setObject b { o with pointerCount := o.pointerCount + 1 }

end ObState

/-- The types whose delete procedure asserts that a list in the body is empty; in a body of zeroes
its head does not point to itself. The other procedures take a body of zeroes for one that has nothing
to release, but for that of a process, which is never asked about one. -/
def ObjectType.assertsOnZeroes : ObjectType → Bool
  | .section | .debugObject | .job | .ioCompletion => true
  | _ => false

/-- The types whose objects are made by `ObpCreateObjectWithHandle`. -/
def ObjectType.created : ObjectType → Bool
  | .thread | .process | .token | .file => false
  | _ => true

/-- The delete procedure of a type, as far as the object manager can tell: a directory is empty. -/
def deleteProcedure (o : Object) : Except Halt Unit :=
  match o.body with
  | .zeroed => if o.type.assertsOnZeroes then .error .deleteProcedure else .ok ()
  | .directory entries => if entries = [] then .ok () else .error .deleteProcedure
  | .symbolicLink _ => .ok ()
  | .other => .ok ()

def obfReferenceObject (s : ObState) (b : Body) : Except Halt ObState :=
  match s.objects b with
  | none => .error .deadReference
  | some o =>
    if o.pointerCount = 0 then .error .deadReference
    else .ok (s.setObject b { o with pointerCount := o.pointerCount + 1 })

def obDereferenceObject (s : ObState) (b : Body) : Except Halt ObState :=
  match s.objects b with
  | none => .error .doubleDereference
  | some o =>
    if o.pointerCount = 0 then .error .doubleDereference
    else if 0 < o.pointerCount - 1 then
      .ok (s.setObject b { o with pointerCount := o.pointerCount - 1 })
    else if o.handleCount ≠ 0 then .error .handlesOpen
    else if o.parentDirectory.isSome then .error .stillNamed
    else (deleteProcedure o).map fun _ => s.free b

/-- The thread that calls: its process, and what its magic handles name. -/
structure Caller where
  process : Nat
  pseudo : Nat → Option Body

def ObState.type (s : ObState) (b : Body) : Option ObjectType := (s.objects b).map Object.type

def obReferenceObjectByHandle (s : ObState) (caller : Caller) (handle : Nat)
    (desiredAccess : AccessMask) (type : ObjectType) :
    Except Halt (ObState × Except NtStatus Body) :=
  if Ps.obpIsPseudoHandle handle then
    match caller.pseudo (handle % 2 ^ 32) with
    | none => .ok (s, .error statusInvalidHandle)
    | some self => do
      let s ← obfReferenceObject s self
      if s.type self ≠ some type then
        let s ← obDereferenceObject s self
        .ok (s, .error statusObjectTypeMismatch)
      else .ok (s, .ok self)
  else
    match Ps.obpEntryInTable (s.tables caller.process) handle with
    | none => .ok (s, .error statusInvalidHandle)
    | some (_, entry) =>
      if s.type entry.body ≠ some type then .ok (s, .error statusObjectTypeMismatch)
      else if entry.grantedAccess &&& desiredAccess ≠ desiredAccess then
        .ok (s, .error statusAccessDenied)
      else do
        let s ← obfReferenceObject s entry.body
        .ok (s, .ok entry.body)

/-- Everything that can be reached is there: the root is a directory, what a directory lists is an
object, links have targets, and what a handle names is an object. -/
structure ObState.WellFormed (s : ObState) (caller : Caller) : Prop where
  root : ∃ o, s.objects s.root = some o ∧ o.type = .directory
  counted : ∀ b o, s.objects b = some o → 0 < o.pointerCount
  directory : ∀ b o, s.objects b = some o → o.type = .directory →
    ∃ entries, o.body = .directory entries ∧ ∀ c ∈ entries, (s.objects c).isSome
  symbolicLink : ∀ b o, s.objects b = some o → o.type = .symbolicLink →
    ∃ target, o.body = .symbolicLink target ∧ target ≠ []
  handle : ∀ p entry, some entry ∈ (s.tables p).entries → (s.objects entry.body).isSome
  pseudo : ∀ n b, caller.pseudo n = some b → (s.objects b).isSome

def ObState.Live (s : ObState) (b : Body) : Prop := ∃ o, s.objects b = some o ∧ 0 < o.pointerCount

section
variable {s : ObState} {caller : Caller} {b c : Body} {o : Object}

theorem ObState.WellFormed.live (h : s.WellFormed caller) (hb : (s.objects b).isSome) : s.Live b := by
  obtain ⟨o, ho⟩ := Option.isSome_iff_exists.mp hb
  exact ⟨o, ho, h.counted b o ho⟩

theorem bump_eq (ho : s.objects b = some o) :
    s.bump b = s.setObject b { o with pointerCount := o.pointerCount + 1 } := by
  unfold ObState.bump
  rw [ho]

theorem objects_bump_self (ho : s.objects b = some o) :
    (s.bump b).objects b = some { o with pointerCount := o.pointerCount + 1 } := by
  rw [bump_eq ho]
  exact Function.update_self ..

theorem objects_bump_ne (hne : c ≠ b) : (s.bump b).objects c = s.objects c := by
  unfold ObState.bump
  split
  · rfl
  · exact Function.update_of_ne hne ..

theorem objects_bump (b c : Body) : (s.bump b).objects c =
    (s.objects c).map fun o =>
      { o with pointerCount := o.pointerCount + if c = b then 1 else 0 } := by
  by_cases hc : c = b
  · subst hc
    cases ho : s.objects c with
    | none =>
      unfold ObState.bump
      rw [ho]
      exact ho
    | some o =>
      rw [objects_bump_self ho, if_pos rfl]
      rfl
  · rw [objects_bump_ne hc, if_neg hc]
    cases s.objects c <;> rfl

@[simp] theorem root_bump : (s.bump b).root = s.root := by
  unfold ObState.bump
  split <;> rfl

@[simp] theorem tables_bump : (s.bump b).tables = s.tables := by
  unfold ObState.bump
  split <;> rfl

@[simp] theorem type_bump : (s.bump b).type c = s.type c := by
  unfold ObState.type
  rw [objects_bump]
  cases s.objects c <;> rfl

theorem ObState.ext {s' : ObState} (hobjects : ∀ c, s.objects c = s'.objects c)
    (hroot : s.root = s'.root) (htables : s.tables = s'.tables) : s = s' := by
  cases s
  cases s'
  cases hroot
  cases htables
  obtain rfl : _ = _ := funext hobjects
  rfl

theorem bump_comm (b c : Body) : (s.bump b).bump c = (s.bump c).bump b := by
  refine ObState.ext ?_ (by simp) (by simp)
  intro d
  simp only [objects_bump, Option.map_map]
  congr 1
  funext o
  simp only [Function.comp, Object.mk.injEq, true_and, and_true]
  omega

theorem ObState.Live.bump (h : s.Live b) (c : Body) : (s.bump c).Live b := by
  obtain ⟨o, ho, hpos⟩ := h
  have hbump := objects_bump (s := s) c b
  rw [ho] at hbump
  exact ⟨_, hbump, Nat.lt_of_lt_of_le hpos (Nat.le_add_right ..)⟩

theorem obfReferenceObject_eq (h : s.Live b) : obfReferenceObject s b = .ok (s.bump b) := by
  obtain ⟨o, ho, hpos⟩ := h
  rw [bump_eq ho, obfReferenceObject, ho]
  exact if_neg (Nat.pos_iff_ne_zero.mp hpos)

theorem obDereferenceObject_bump (h : s.Live b) : obDereferenceObject (s.bump b) b = .ok s := by
  obtain ⟨o, ho, hpos⟩ := h
  rw [obDereferenceObject, objects_bump_self ho]
  dsimp only
  rw [if_neg (Nat.succ_ne_zero _), if_pos (by simpa using hpos)]
  refine congrArg _ (ObState.ext ?_ ?_ ?_)
  · intro c
    unfold ObState.setObject
    dsimp only
    by_cases hc : c = b
    · subst hc
      rw [Function.update_self, ho, Nat.add_sub_cancel]
    · rw [Function.update_of_ne hc, objects_bump_ne hc]
  · exact root_bump
  · exact tables_bump

theorem obDereferenceObject_bump_bump (h : s.Live b) :
    obDereferenceObject ((s.bump b).bump c) b = .ok (s.bump c) := by
  rw [bump_comm]
  exact obDereferenceObject_bump (h.bump c)

theorem obReferenceObjectByHandle_ends (h : s.WellFormed caller) (handle : Nat)
    (desiredAccess : AccessMask) (type : ObjectType) :
    (∃ status, obReferenceObjectByHandle s caller handle desiredAccess type = .ok (s, .error status)) ∨
    ∃ b, obReferenceObjectByHandle s caller handle desiredAccess type = .ok (s.bump b, .ok b) ∧
      s.type b = some type := by
  unfold obReferenceObjectByHandle
  split
  · split
    · exact .inl ⟨_, rfl⟩
    · rename_i self hself
      have hlive := h.live (h.pseudo _ _ hself)
      rw [obfReferenceObject_eq hlive]
      by_cases htype : s.type self = some type
      · refine .inr ⟨self, ?_, htype⟩
        show (if (s.bump self).type self ≠ some type then _ else _) = _
        rw [type_bump, if_neg (not_not.mpr htype)]
      · refine .inl ⟨statusObjectTypeMismatch, ?_⟩
        show (if (s.bump self).type self ≠ some type then _ else _) = _
        rw [type_bump, if_pos htype, obDereferenceObject_bump hlive]
        rfl
  · split
    · exact .inl ⟨_, rfl⟩
    · rename_i index entry hentry
      have hmem : some entry ∈ (s.tables caller.process).entries := by
        unfold Ps.obpEntryInTable at hentry
        split at hentry
        · cases hentry
        · obtain ⟨e, he, heq⟩ := Option.map_eq_some_iff.mp hentry
          cases heq
          exact List.mem_of_getElem? (Option.join_eq_some_iff.mp he)
      split
      · exact .inl ⟨_, rfl⟩
      · rename_i htype
        split
        · exact .inl ⟨_, rfl⟩
        · refine .inr ⟨entry.body, ?_, not_not.mp htype⟩
          rw [obfReferenceObject_eq (h.live (h.handle _ _ hmem))]
          rfl

end

end Proskrnl.Ob
