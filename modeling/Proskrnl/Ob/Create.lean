import Proskrnl.Ob.Resolve
import Proskrnl.Ps.Lifecycle

/-!
# Creation of an object

`ObpCreateObjectWithHandle` of `kernel/ob/namespace.c`, with the linkage of names there and
`ObpCreateHandle` of `kernel/ob/handle.c`. The creator initialises the body after the call, so that the
unwind of the call has the delete procedure of the type run on a body of zeroes.
-/

namespace Proskrnl.Ob
open Ps (Body HandleTable HandleEntry AccessMask)

def objPermanent : UInt32 := 0x00000010
def objOpenIf : UInt32 := 0x00000080

def genericRead : AccessMask := 0x80000000
def genericWrite : AccessMask := 0x40000000
def genericExecute : AccessMask := 0x20000000
def genericAll : AccessMask := 0x10000000
def maximumAllowed : AccessMask := 0x02000000

/-- The access masks of an `OBJECT_TYPE`. -/
structure TypeAccess where
  validAccess : AccessMask
  genericRead : AccessMask := 0
  genericWrite : AccessMask := 0
  genericExecute : AccessMask := 0
  genericAll : AccessMask := 0
  mapAccess : AccessMask → AccessMask := id

def obpMapDesiredAccess (type : TypeAccess) (desiredAccess : AccessMask) : AccessMask :=
  let any := genericRead ||| genericWrite ||| genericExecute ||| genericAll ||| maximumAllowed
  let asked (mask rights : AccessMask) : AccessMask := if desiredAccess &&& mask ≠ 0 then rights else 0
  type.mapAccess <|
    if desiredAccess &&& any ≠ 0 then
      if type.genericAll ≠ 0 then
        (desiredAccess &&& ~~~ any ||| asked genericRead type.genericRead |||
          asked genericWrite type.genericWrite ||| asked genericExecute type.genericExecute |||
          asked (genericAll ||| maximumAllowed) type.genericAll) &&& type.validAccess
      else type.validAccess
    else desiredAccess &&& type.validAccess

/-- What `ObpCreateObjectWithHandle` is called with. -/
structure CreateRequest where
  type : ObjectType
  created : type.created
  access : TypeAccess
  probe : NtStatus := statusSuccess
  hasAttributes : Bool := true
  rootDirectory : Nat := 0
  objectName : Option CountedString := none
  attributes : UInt32 := 0
  /-- There is a security descriptor to capture. -/
  secured : Bool := false
  desiredAccess : AccessMask

/-- What the call depends on: the pool, the capture of the descriptor, and the probe of the slot that
the handle goes to. -/
structure CreateEnv where
  /-- Where the pool puts the object. -/
  fresh : Body
  objectPool : Bool := true
  reparsePool : Nat → Bool := fun _ => true
  namePool : Bool := true
  handlePool : Bool := true
  capture : NtStatus := statusSuccess
  handleProbe : NtStatus := statusSuccess

namespace CreateRequest
variable (q : CreateRequest)

def granted : AccessMask := obpMapDesiredAccess q.access q.desiredAccess

def handleAttributes : UInt32 := if q.hasAttributes then q.attributes else 0

def name : Option CountedString :=
  if q.hasAttributes then q.objectName.filter fun name => name.bytes ≠ 0 else none

def lookup (env : CreateEnv) (name : CountedString) : LookupRequest :=
  { rootDirectory := q.rootDirectory
    name
    attributes := q.attributes
    followFinalLink := q.type ≠ .symbolicLink
    forCreate := true
    pool := env.reparsePool }

end CreateRequest

def ObState.setEntries (s : ObState) (d : Body) (f : List Body → List Body) : Except Halt ObState :=
  match s.objects d with
  | none => .error .zeroedDirectory
  | some o =>
    match o.body with
    | .directory entries => .ok (s.setObject d { o with body := .directory (f entries) })
    | _ => .error .zeroedDirectory

def obpLinkObjectName (s : ObState) (d b : Body) (name : WStr) (pool : Bool) :
    Except Halt (ObState × NtStatus) :=
  match s.objects b with
  | none => .error .deadReference
  | some o =>
    if o.parentDirectory.isSome ∨ o.name ≠ [] then .error .linkedTwice
    else if name = [] then .error .emptyAllocation
    else if !pool then .ok (s, statusInsufficientResources)
    else do
      let s ← obfReferenceObject (s.setObject b { o with name, parentDirectory := some d }) d
      let s ← s.setEntries d (· ++ [b])
      let s ← obfReferenceObject s b
      .ok (s, statusSuccess)

def obpUnlinkObjectName (s : ObState) (b : Body) : Except Halt ObState :=
  match s.objects b with
  | none => .error .deadReference
  | some o =>
    match o.parentDirectory with
    | none => .ok s
    | some d => do
      let s ← s.setEntries d (·.erase b)
      let s ← obDereferenceObject
        (match s.objects b with
          | none => s
          | some o => s.setObject b { o with parentDirectory := none }) d
      obDereferenceObject s b

def obpCreateHandle (s : ObState) (caller : Caller) (b : Body) (granted : AccessMask)
    (attributes : UInt32) (env : CreateEnv) : Except Halt (ObState × NtStatus) :=
  if ¬ ntSuccess env.handleProbe then .ok (s, env.handleProbe)
  else do
    match ← (Ps.obpCreateHandleInTable (s.tables caller.process) ⟨b, granted, attributes⟩
        env.handlePool).mapError Halt.handleTable with
    | none => .ok (s, statusInsufficientResources)
    | some table =>
      let s ← obfReferenceObject (s.setTable caller.process table) b
      match s.objects b with
      | none => .error .deadReference
      | some o => .ok (s.setObject b { o with handleCount := o.handleCount + 1 }, statusSuccess)

/-! ## Creation -/

section
variable (q : CreateRequest) (env : CreateEnv) (caller : Caller)

/-- `none` when the pool is out. -/
def obpAllocateObject (s : ObState) : Option ObState :=
  if env.objectPool then some (s.setObject env.fresh { type := q.type, pointerCount := 1 }) else none

/-- The arm for an object without a name. -/
def createUnnamed (s : ObState) : Except Halt (ObState × NtStatus) :=
  match obpAllocateObject q env s with
  | none => .ok (s, statusInsufficientResources)
  | some s => do
    let (s, status) ← obpCreateHandle s caller env.fresh q.granted q.handleAttributes env
    let s ← obDereferenceObject s env.fresh
    .ok (s, status)

def openExisting (s : ObState) (found : Body) : Except Halt (ObState × NtStatus) := do
  if q.attributes &&& objOpenIf = 0 then
    let s ← obDereferenceObject s found
    .ok (s, statusObjectNameCollision)
  else if s.type found ≠ some q.type then
    let s ← obDereferenceObject s found
    .ok (s, statusObjectTypeMismatch)
  else
    let (s, status) ← obpCreateHandle s caller found q.granted q.attributes env
    let s ← obDereferenceObject s found
    .ok (s, if ntSuccess status then statusObjectNameExists else status)

/-- The object header with what the call knows of it before the name. -/
def newObject : Object :=
  { type := q.type
    pointerCount := 1
    permanent := q.attributes &&& objPermanent ≠ 0
    secured := q.secured }

def handleNamed (s : ObState) : Except Halt (ObState × NtStatus) := do
  let (s, status) ← obpCreateHandle s caller env.fresh q.granted q.attributes env
  let s ← if ntSuccess status then .ok s else obpUnlinkObjectName s env.fresh
  let s ← obDereferenceObject s env.fresh
  .ok (s, status)

def createNamed (s : ObState) (parent : Body) (leaf : WStr) : Except Halt (ObState × NtStatus) :=
  match obpAllocateObject q env s with
  | none => do
    let s ← obDereferenceObject s parent
    .ok (s, statusInsufficientResources)
  | some s =>
    let s := s.setObject env.fresh
      { type := q.type, pointerCount := 1, permanent := q.attributes &&& objPermanent ≠ 0 }
    if ¬ ntSuccess env.capture then do
      let s ← obDereferenceObject s parent
      let s ← obDereferenceObject s env.fresh
      .ok (s, env.capture)
    else do
      let (s, status) ← obpLinkObjectName (s.setObject env.fresh (newObject q)) parent env.fresh leaf
        env.namePool
      let s ← obDereferenceObject s parent
      if ¬ ntSuccess status then
        let s ← obDereferenceObject s env.fresh
        .ok (s, status)
      else handleNamed q env caller s

def createFound (s : ObState) : LookupResult → Except Halt (ObState × NtStatus)
  | .failed status => .ok (s, status)
  | .object found => openExisting q env caller s found
  | .parse found _ => openExisting q env caller s found
  | .leaf parent leaf => createNamed q env caller s parent leaf

def obpCreateObjectWithHandle (turns : Nat) (s : ObState) :
    Except Halt (Option (ObState × NtStatus)) :=
  if ¬ ntSuccess q.probe then .ok (some (s, q.probe))
  else
    match q.name with
    | none => (createUnnamed q env caller s).map some
    | some name => do
      match ← obpLookupName (q.lookup env name) turns caller s with
      | none => .ok none
      | some (s, r, _) => (createFound q env caller s r).map some

end

section
variable {s : ObState} {b d : Body} {o o' p p' : Object}

@[simp] theorem objects_setObject : (s.setObject b o).objects b = some o :=
  Function.update_self ..

theorem objects_setObject_ne (h : d ≠ b) : (s.setObject b o).objects d = s.objects d :=
  Function.update_of_ne h ..

@[simp] theorem setObject_setObject : (s.setObject b o).setObject b o' = s.setObject b o' := by
  unfold ObState.setObject
  rw [Function.update_idem]

theorem setObject_comm (h : b ≠ d) :
    (s.setObject b o).setObject d p = (s.setObject d p).setObject b o := by
  unfold ObState.setObject
  rw [Function.update_comm h]

theorem setObject_self (h : s.objects b = some o) : s.setObject b o = s := by
  unfold ObState.setObject
  rw [← h, Function.update_eq_self]

theorem free_setObject (h : s.objects b = none) : (s.setObject b o).free b = s := by
  unfold ObState.setObject ObState.free
  rw [Function.update_idem, ← h, Function.update_eq_self]

def ObState.pair (s : ObState) (d : Body) (p : Object) (b : Body) (o : Object) : ObState :=
  (s.setObject d p).setObject b o

@[simp] theorem objects_pair_right : (s.pair d p b o).objects b = some o :=
  objects_setObject

theorem objects_pair_left (h : d ≠ b) : (s.pair d p b o).objects d = some p := by
  unfold ObState.pair
  rw [objects_setObject_ne h, objects_setObject]

@[simp] theorem pair_setObject_right : (s.pair d p b o).setObject b o' = s.pair d p b o' :=
  setObject_setObject

theorem pair_setObject_left (h : d ≠ b) : (s.pair d p b o).setObject d p' = s.pair d p' b o := by
  unfold ObState.pair
  rw [setObject_comm h.symm, setObject_setObject]

theorem obfReferenceObject_of (ho : s.objects b = some o) (hpos : 0 < o.pointerCount) :
    obfReferenceObject s b = .ok (s.setObject b { o with pointerCount := o.pointerCount + 1 }) := by
  rw [obfReferenceObject_eq ⟨o, ho, hpos⟩, bump_eq ho]

theorem obDereferenceObject_of (ho : s.objects b = some o) (hpos : 1 < o.pointerCount) :
    obDereferenceObject s b = .ok (s.setObject b { o with pointerCount := o.pointerCount - 1 }) := by
  unfold obDereferenceObject
  rw [ho]
  dsimp only
  rw [if_neg (by omega), if_pos (by omega)]

theorem obDereferenceObject_last (ho : s.objects b = some o) (hcount : o.pointerCount = 1)
    (hhandle : o.handleCount = 0) (hparent : o.parentDirectory = none) :
    obDereferenceObject s b = (deleteProcedure o).map fun _ => s.free b := by
  unfold obDereferenceObject
  rw [ho]
  dsimp only
  rw [hcount, if_neg Nat.one_ne_zero, if_neg (Nat.lt_irrefl 0), if_neg (not_not.mpr hhandle), hparent]
  rfl

theorem deleteProcedure_zeroed (h : o.body = .zeroed) :
    deleteProcedure o = if o.type.assertsOnZeroes then .error .deleteProcedure else .ok () := by
  unfold deleteProcedure
  rw [h]

end

/-! ## What can fail -/

/-- No handle can be made: its slot is not writable, or the table is full and cannot grow. -/
def CreateEnv.HandleFails (env : CreateEnv) (table : HandleTable) : Prop :=
  ¬ ntSuccess env.handleProbe ∨ Ps.obpGrowTable table env.handlePool = none

section
variable (q : CreateRequest) (env : CreateEnv) (caller : Caller) (s : ObState)

def CreateRequest.LeadsTo (r : LookupResult) : Prop :=
  ∃ name enough log, q.name = some name ∧ ∀ turns, enough ≤ turns →
    obpLookupName (q.lookup env name) turns caller s = .ok (some (s.after r, r, log))

/-- Something fails after the object has been allocated. -/
def CreateRequest.FailsLate : Prop :=
  ntSuccess q.probe ∧ env.objectPool ∧
    (q.name = none ∧ env.HandleFails (s.tables caller.process) ∨
      ∃ parent leaf, q.LeadsTo env caller s (.leaf parent leaf) ∧
        (¬ ntSuccess env.capture ∨ env.namePool = false ∨
          env.HandleFails (s.tables caller.process)))

def CreateRequest.Fails : Prop :=
  ¬ ntSuccess q.probe ∨
  q.name = none ∧ (env.objectPool = false ∨ env.HandleFails (s.tables caller.process)) ∨
  (∃ parent leaf, q.LeadsTo env caller s (.leaf parent leaf) ∧
    (env.objectPool = false ∨ ¬ ntSuccess env.capture ∨ env.namePool = false ∨
      env.HandleFails (s.tables caller.process))) ∨
  ∃ found, q.LeadsTo env caller s (.object found) ∧ q.attributes &&& objOpenIf ≠ 0 ∧
    s.type found = some q.type ∧ env.HandleFails (s.tables caller.process)

/-- The call returns, with a failure where something fails, and a failure leaves no trace. -/
def LeavesNoTrace : Prop :=
  ∃ enough s' status, (∀ turns, enough ≤ turns →
      obpCreateObjectWithHandle q env caller turns s = .ok (some (s', status))) ∧
    (q.Fails env caller s → ¬ ntSuccess status) ∧ (¬ ntSuccess status → s' = s)

end

theorem not_ntSuccess_insufficientResources : ¬ ntSuccess statusInsufficientResources := by decide

/-- How a part of the call ends: with an assertion, or with a failure that has left the state alone if
something fails. -/
def Settles (s : ObState) (call : Except Halt (ObState × NtStatus)) (fails asserts : Prop) : Prop :=
  ¬ asserts ∧ (∃ s' status, call = .ok (s', status) ∧ (fails → ¬ ntSuccess status) ∧
    (¬ ntSuccess status → s' = s)) ∨
  asserts ∧ ∃ halt, call = .error halt

section
variable {q : CreateRequest} {env : CreateEnv} {caller : Caller} {s : ObState} {b parent : Body}
  {o p : Object} {leaf : WStr}

theorem obpCreateHandleInTable_slot {table : HandleTable} (h : table.Wf) (entry : HandleEntry)
    (pool : Bool) :
    (Ps.obpGrowTable table pool = none ∧ Ps.obpCreateHandleInTable table entry pool = .ok none) ∨
    Ps.obpGrowTable table pool ≠ none ∧
      ∃ table', Ps.obpCreateHandleInTable table entry pool = .ok (some table') := by
  unfold Ps.obpCreateHandleInTable
  cases hgrow : Ps.obpGrowTable table pool with
  | none => exact .inl ⟨rfl, rfl⟩
  | some grown =>
    obtain ⟨hwf, hlt⟩ := Ps.obpGrowTable_wf h hgrow
    obtain ⟨i, hi⟩ := hwf.exists_free hlt
    refine .inr ⟨Option.some_ne_none grown, ?_⟩
    dsimp only
    rw [hi]
    exact ⟨_, rfl⟩

theorem obpCreateHandle_ends (env : CreateEnv) (caller : Caller) (htable : (s.tables caller.process).Wf) (ho : s.objects b = some o)
    (hpos : 0 < o.pointerCount) (granted : AccessMask) (attributes : UInt32) :
    (env.HandleFails (s.tables caller.process) ∧ ∃ status, ¬ ntSuccess status ∧
      obpCreateHandle s caller b granted attributes env = .ok (s, status)) ∨
    ¬ env.HandleFails (s.tables caller.process) ∧ ∃ table,
      obpCreateHandle s caller b granted attributes env = .ok
        ((s.setTable caller.process table).setObject b
          { o with pointerCount := o.pointerCount + 1, handleCount := o.handleCount + 1 },
          statusSuccess) := by
  unfold obpCreateHandle CreateEnv.HandleFails
  split
  · rename_i hprobe
    exact .inl ⟨.inl hprobe, _, hprobe, rfl⟩
  · rename_i hprobe
    obtain ⟨hgrow, hmade⟩ | ⟨hgrow, table, hmade⟩ := obpCreateHandleInTable_slot htable
      ⟨b, granted, attributes⟩ env.handlePool
    · rw [hmade]
      exact .inl ⟨.inr hgrow, statusInsufficientResources, by decide, rfl⟩
    · refine .inr ⟨?_, table, ?_⟩
      · rintro (h | h)
        · exact hprobe h
        · exact hgrow h
      · rw [hmade]
        have ho' : (s.setTable caller.process table).objects b = some o := ho
        dsimp only [Except.mapError, bind, Except.bind]
        rw [obfReferenceObject_of ho' hpos]
        dsimp only
        rw [objects_setObject]
        dsimp only
        rw [setObject_setObject]

theorem obDereferenceObject_zeroed (ho : s.objects b = some o) (hcount : o.pointerCount = 1)
    (hhandle : o.handleCount = 0) (hparent : o.parentDirectory = none) (hbody : o.body = .zeroed) :
    obDereferenceObject s b =
      if o.type.assertsOnZeroes then .error .deleteProcedure else .ok (s.free b) := by
  rw [obDereferenceObject_last ho hcount hhandle hparent, deleteProcedure_zeroed hbody]
  split <;> rfl

variable {fails asserts late : Prop} {status : NtStatus} {entries : List Body}

theorem Settles.congr {call : Except Halt (ObState × NtStatus)} {fails' asserts' : Prop}
    (h : Settles s call fails asserts) (hfails : fails' → fails) (hasserts : asserts' ↔ asserts) :
    Settles s call fails' asserts' := by
  rw [propext hasserts]
  obtain ⟨hnot, s', status, hcall, hfailed, hsame⟩ | herror := h
  · exact .inl ⟨hnot, s', status, hcall, fun h => hfailed (hfails h), hsame⟩
  · exact .inr herror

theorem settles_zeroed {s1 : ObState} {type : ObjectType}
    (hstatus : ¬ ntSuccess status) (hlate : late)
    (hlast : obDereferenceObject s1 b =
      if type.assertsOnZeroes then .error .deleteProcedure else .ok s) :
    Settles s (do
      let s ← obDereferenceObject s1 b
      Except.ok (s, status)) fails (type.assertsOnZeroes ∧ late) := by
  rw [hlast]
  cases htype : type.assertsOnZeroes with
  | true => exact .inr ⟨⟨rfl, hlate⟩, _, rfl⟩
  | false =>
    exact .inl ⟨fun h => Bool.false_ne_true h.1, s, status, rfl, fun _ => hstatus, fun _ => rfl⟩

theorem settles_failed (hstatus : ¬ ntSuccess status)
    (hasserts : ¬ asserts) : Settles s (.ok (s, status)) fails asserts :=
  .inl ⟨hasserts, s, status, rfl, fun _ => hstatus, fun _ => rfl⟩

theorem settles_same (hfails : ¬ fails)
    (hasserts : ¬ asserts) : Settles s (.ok (s, status)) fails asserts :=
  .inl ⟨hasserts, s, status, rfl, fun h => absurd h hfails, fun _ => rfl⟩

theorem settles_success {s' : ObState}
    (hstatus : ntSuccess status) (hfails : ¬ fails) (hasserts : ¬ asserts) :
    Settles s (.ok (s', status)) fails asserts :=
  .inl ⟨hasserts, s', status, rfl, fun h => absurd h hfails, fun h => absurd hstatus h⟩

theorem createUnnamed_settles (htable : (s.tables caller.process).Wf)
    (hfresh : s.objects env.fresh = none) :
    Settles s (createUnnamed q env caller s)
      (env.objectPool = false ∨ env.HandleFails (s.tables caller.process))
      (q.type.assertsOnZeroes ∧ env.objectPool ∧ env.HandleFails (s.tables caller.process)) := by
  unfold createUnnamed obpAllocateObject
  cases hpool : env.objectPool with
  | false => exact settles_failed (by decide) fun h => by cases h.2.1
  | true =>
    rw [if_pos rfl]
    dsimp only
    obtain ⟨hfails, status, hstatus, hhandle⟩ | ⟨hfails, table, hhandle⟩ := obpCreateHandle_ends
      (s := s.setObject env.fresh { type := q.type, pointerCount := 1 }) env caller htable
      objects_setObject Nat.one_pos q.granted q.handleAttributes
    · rw [hhandle]
      apply settles_zeroed hstatus ⟨rfl, hfails⟩
      rw [obDereferenceObject_zeroed objects_setObject rfl rfl rfl rfl, free_setObject hfresh]
    · rw [hhandle]
      dsimp only [bind, Except.bind]
      rw [obDereferenceObject_of objects_setObject Nat.one_lt_two]
      apply settles_success (by decide)
      · rintro (h | h)
        · cases h
        · exact hfails h
      · exact fun h => hfails h.2.2

theorem openExisting_settles (htable : (s.tables caller.process).Wf) (hb : s.Live b) :
    Settles s (openExisting q env caller (s.bump b) b)
      (q.attributes &&& objOpenIf ≠ 0 ∧ s.type b = some q.type ∧
        env.HandleFails (s.tables caller.process)) False := by
  unfold openExisting
  rw [type_bump, obDereferenceObject_bump hb]
  split
  · exact settles_failed (by decide) not_false
  · split
    · exact settles_failed (by decide) not_false
    · obtain ⟨o, ho, hpos⟩ := hb.bump b
      obtain ⟨hfails, status, hstatus, hhandle⟩ | ⟨hfails, table, hhandle⟩ := obpCreateHandle_ends
        env caller (by rw [tables_bump]; exact htable) ho hpos q.granted
        q.attributes
      · rw [hhandle]
        dsimp only [bind, Except.bind]
        rw [obDereferenceObject_bump hb, if_neg hstatus]
        exact settles_failed hstatus not_false
      · rw [hhandle]
        dsimp only [bind, Except.bind]
        rw [obDereferenceObject_of objects_setObject (by dsimp only; omega)]
        rw [tables_bump] at hfails
        have hstatus : ntSuccess statusObjectNameExists := by decide
        exact settles_success hstatus (fun h => hfails h.2.2) not_false

/-! ## Linkage -/

theorem setEntries_pair (entries : List Body) {f : List Body → List Body} (hne : parent ≠ b)
    (hbody : p.body = .directory entries) :
    (s.pair parent p b o).setEntries parent f =
      .ok (s.pair parent { p with body := .directory (f entries) } b o) := by
  unfold ObState.setEntries
  rw [objects_pair_left hne]
  dsimp only
  rw [hbody]
  dsimp only
  rw [pair_setObject_left hne]

theorem obfReferenceObject_pair_left (hne : parent ≠ b) (hpos : 0 < p.pointerCount) :
    obfReferenceObject (s.pair parent p b o) parent =
      .ok (s.pair parent { p with pointerCount := p.pointerCount + 1 } b o) := by
  rw [obfReferenceObject_of (objects_pair_left hne) hpos, pair_setObject_left hne]

theorem obfReferenceObject_pair_right (hpos : 0 < o.pointerCount) :
    obfReferenceObject (s.pair parent p b o) b =
      .ok (s.pair parent p b { o with pointerCount := o.pointerCount + 1 }) := by
  rw [obfReferenceObject_of objects_pair_right hpos, pair_setObject_right]

theorem obDereferenceObject_pair_left (hne : parent ≠ b) (hpos : 1 < p.pointerCount) :
    obDereferenceObject (s.pair parent p b o) parent =
      .ok (s.pair parent { p with pointerCount := p.pointerCount - 1 } b o) := by
  rw [obDereferenceObject_of (objects_pair_left hne) hpos, pair_setObject_left hne]

theorem obDereferenceObject_pair_right (hpos : 1 < o.pointerCount) :
    obDereferenceObject (s.pair parent p b o) b =
      .ok (s.pair parent p b { o with pointerCount := o.pointerCount - 1 }) := by
  rw [obDereferenceObject_of objects_pair_right hpos, pair_setObject_right]

theorem obpLinkObjectName_pair (hne : parent ≠ b)
    (hbody : p.body = .directory entries) (hpos : 0 < p.pointerCount) (hcount : 0 < o.pointerCount)
    (hparent : o.parentDirectory = none) (hname : o.name = []) (hleaf : leaf ≠ []) :
    obpLinkObjectName (s.pair parent p b o) parent b leaf true =
      .ok (s.pair parent
          { p with pointerCount := p.pointerCount + 1, body := .directory (entries ++ [b]) } b
          { o with pointerCount := o.pointerCount + 1, parentDirectory := some parent, name := leaf },
        statusSuccess) := by
  unfold obpLinkObjectName
  rw [objects_pair_right]
  dsimp only
  rw [hparent, hname, if_neg (by simp), if_neg hleaf, if_neg (by decide), pair_setObject_right,
    obfReferenceObject_pair_left hne hpos]
  dsimp only [bind, Except.bind]
  rw [setEntries_pair entries hne]
  · dsimp only
    rw [obfReferenceObject_pair_right]
    exact hcount
  · exact hbody

theorem obpUnlinkObjectName_pair (hne : parent ≠ b) (hfree : b ∉ entries)
    (hbody : p.body = .directory (entries ++ [b])) (hpos : 1 < p.pointerCount)
    (hcount : 1 < o.pointerCount) (hparent : o.parentDirectory = some parent) :
    obpUnlinkObjectName (s.pair parent p b o) b =
      .ok (s.pair parent
        { p with pointerCount := p.pointerCount - 1, body := .directory entries } b
        { o with pointerCount := o.pointerCount - 1, parentDirectory := none }) := by
  have herase : (entries ++ [b]).erase b = entries := by
    rw [List.erase_append_right _ hfree, List.erase_cons_head, List.append_nil]
  unfold obpUnlinkObjectName
  rw [objects_pair_right]
  dsimp only
  rw [hparent]
  dsimp only [bind, Except.bind]
  rw [setEntries_pair _ hne hbody, herase]
  dsimp only
  rw [objects_pair_right]
  dsimp only
  rw [pair_setObject_right, obDereferenceObject_pair_left hne]
  · dsimp only
    rw [obDereferenceObject_pair_right]
    exact hcount
  · exact hpos

/-! ## An object with a name -/

theorem settles_givenUp (hp : s.objects parent = some p)
    (hpos : 0 < p.pointerCount) (hb : s.objects b = none) (hne : parent ≠ b)
    (hcount : o.pointerCount = 1) (hhandle : o.handleCount = 0) (hparent : o.parentDirectory = none)
    (hbody : o.body = .zeroed) (hstatus : ¬ ntSuccess status) (hlate : late) :
    Settles s (do
      let s ← obDereferenceObject
        (s.pair parent { p with pointerCount := p.pointerCount + 1 } b o) parent
      let s ← obDereferenceObject s b
      Except.ok (s, status)) fails (o.type.assertsOnZeroes ∧ late) := by
  rw [obDereferenceObject_pair_left hne]
  · dsimp only [bind, Except.bind]
    apply settles_zeroed hstatus hlate
    rw [obDereferenceObject_zeroed objects_pair_right hcount hhandle hparent hbody]
    have hfree : (s.pair parent p b o).free b = s := by
      unfold ObState.pair
      rw [setObject_self hp, free_setObject hb]
    exact congrArg (fun s => if o.type.assertsOnZeroes then _ else Except.ok s) hfree
  · exact Nat.lt_add_of_pos_left hpos

theorem settles_unlinked
    (hp : s.objects parent = some p) (hbody : p.body = .directory entries) (hfree : b ∉ entries)
    (hpos : 0 < p.pointerCount) (hb : s.objects b = none) (hne : parent ≠ b)
    (hcount : o.pointerCount = 2) (hhandle : o.handleCount = 0)
    (hparent : o.parentDirectory = some parent) (hzeroed : o.body = .zeroed)
    (hstatus : ¬ ntSuccess status) (hlate : late) :
    Settles s (do
      let s ← obpUnlinkObjectName (s.pair parent
        { p with pointerCount := p.pointerCount + 1, body := .directory (entries ++ [b]) } b o) b
      let s ← obDereferenceObject s b
      Except.ok (s, status)) fails (o.type.assertsOnZeroes ∧ late) := by
  rw [obpUnlinkObjectName_pair hne hfree rfl (Nat.lt_add_of_pos_left hpos) (by omega) hparent]
  dsimp only [bind, Except.bind]
  apply settles_zeroed hstatus hlate
  have hlast : o.pointerCount - 1 = 1 := by omega
  refine (obDereferenceObject_zeroed
    (o := { o with pointerCount := o.pointerCount - 1, parentDirectory := none })
    objects_pair_right hlast hhandle rfl hzeroed).trans ?_
  have hsame : { p with pointerCount := p.pointerCount + 1 - 1, body := .directory entries } = p := by
    rw [← hbody]
    rfl
  have hfreed : (s.pair parent
      { p with pointerCount := p.pointerCount + 1 - 1, body := .directory entries } b
      { o with pointerCount := o.pointerCount - 1, parentDirectory := none }).free b = s := by
    unfold ObState.pair
    rw [hsame, setObject_self hp, free_setObject hb]
  exact congrArg (fun s => if o.type.assertsOnZeroes then _ else Except.ok s) hfreed

theorem handleNamed_settles (htable : (s.tables caller.process).Wf)
    (hp : s.objects parent = some p) (hbody : p.body = .directory entries)
    (hfree : env.fresh ∉ entries) (hpos : 0 < p.pointerCount) (hfresh : s.objects env.fresh = none)
    (hne : parent ≠ env.fresh) (hcount : o.pointerCount = 2) (hhandle : o.handleCount = 0)
    (hparent : o.parentDirectory = some parent) (hzeroed : o.body = .zeroed) :
    Settles s (handleNamed q env caller (s.pair parent
      { p with pointerCount := p.pointerCount + 1, body := .directory (entries ++ [env.fresh]) }
      env.fresh o)) (env.HandleFails (s.tables caller.process))
      (o.type.assertsOnZeroes ∧ env.HandleFails (s.tables caller.process)) := by
  unfold handleNamed
  obtain ⟨hfails, status, hstatus, hmade⟩ | ⟨hfails, table, hmade⟩ := obpCreateHandle_ends
    (s := s.pair parent
      { p with pointerCount := p.pointerCount + 1, body := .directory (entries ++ [env.fresh]) }
      env.fresh o) env caller htable objects_pair_right (hcount ▸ Nat.two_pos) q.granted q.attributes
  · rw [hmade]
    dsimp only [bind, Except.bind]
    rw [if_neg hstatus]
    exact settles_unlinked hp hbody hfree hpos hfresh hne hcount hhandle hparent hzeroed hstatus
      hfails
  · rw [hmade]
    dsimp only [bind, Except.bind]
    rw [if_pos (by decide), obDereferenceObject_of objects_setObject (by dsimp only; omega)]
    have hstatus : ntSuccess statusSuccess := by decide
    exact settles_success hstatus hfails fun h => hfails h.2

theorem createNamed_settles (hs : s.WellFormed caller) (htable : (s.tables caller.process).Wf)
    (hfresh : s.objects env.fresh = none) (htype : s.type parent = some .directory)
    (hleaf : leaf ≠ []) :
    Settles s (createNamed q env caller (s.bump parent) parent leaf)
      (env.objectPool = false ∨ ¬ ntSuccess env.capture ∨ env.namePool = false ∨
        env.HandleFails (s.tables caller.process))
      (q.type.assertsOnZeroes ∧ env.objectPool ∧ (¬ ntSuccess env.capture ∨ env.namePool = false ∨
        env.HandleFails (s.tables caller.process))) := by
  obtain ⟨p, hp, hdir⟩ := Option.map_eq_some_iff.mp htype
  obtain ⟨entries, hbody, hlisted⟩ := hs.directory parent p hp hdir
  have hpos := hs.counted parent p hp
  have hne : parent ≠ env.fresh := by
    rintro rfl
    rw [hfresh] at hp
    cases hp
  have hfree : env.fresh ∉ entries := by
    intro hmem
    have hsome := hlisted _ hmem
    rw [hfresh] at hsome
    cases hsome
  unfold createNamed obpAllocateObject
  cases hpool : env.objectPool with
  | false =>
    rw [if_neg Bool.false_ne_true]
    dsimp only
    rw [obDereferenceObject_bump ⟨p, hp, hpos⟩]
    exact settles_failed (by decide) fun h => by cases h.2.1
  | true =>
    have hbump := bump_eq hp
    have hbodyp : ({ p with pointerCount := p.pointerCount + 1 } : Object).body =
        .directory entries := hbody
    rw [if_pos rfl]
    dsimp only
    rw [hbump, setObject_setObject, setObject_setObject]
    split
    · rename_i hcapture
      exact settles_givenUp hp hpos hfresh hne rfl rfl rfl rfl hcapture ⟨rfl, .inl hcapture⟩
    · rename_i hcapture
      have hpair : (s.setObject parent { p with pointerCount := p.pointerCount + 1 }).setObject
          env.fresh (newObject q) =
          s.pair parent { p with pointerCount := p.pointerCount + 1 } env.fresh (newObject q) := rfl
      rw [hpair]
      cases hname : env.namePool with
      | false =>
        have hlink : obpLinkObjectName
            (s.pair parent { p with pointerCount := p.pointerCount + 1 } env.fresh (newObject q))
            parent env.fresh leaf false =
            .ok (s.pair parent { p with pointerCount := p.pointerCount + 1 } env.fresh (newObject q),
              statusInsufficientResources) := by
          unfold obpLinkObjectName
          rw [objects_pair_right]
          dsimp only
          rw [if_neg (by simp [newObject]), if_neg hleaf]
          rfl
        rw [hlink]
        exact settles_givenUp hp hpos hfresh hne rfl rfl rfl rfl
          not_ntSuccess_insufficientResources ⟨rfl, .inr (.inl rfl)⟩
      | true =>
        rw [obpLinkObjectName_pair hne hbodyp (Nat.succ_pos _) Nat.one_pos rfl rfl hleaf]
        dsimp only [bind, Except.bind]
        rw [obDereferenceObject_pair_left hne]
        · dsimp only
          rw [if_neg (by decide)]
          exact (handleNamed_settles htable hp hbody hfree hpos hfresh hne rfl rfl rfl rfl).congr
            (by simp [not_not.mp hcapture]) (by simp [not_not.mp hcapture, newObject])
        · exact Nat.lt_add_of_pos_left (Nat.succ_pos _)

/-! ## The call -/

theorem CreateRequest.leadsTo_iff {name : CountedString} {enough : Nat} {r : LookupResult}
    {log : List Substitution} (hname : q.name = some name)
    (hlookup : ∀ turns, enough ≤ turns →
      obpLookupName (q.lookup env name) turns caller s = .ok (some (s.after r, r, log)))
    (r' : LookupResult) : q.LeadsTo env caller s r' ↔ r' = r := by
  constructor
  · rintro ⟨name', enough', log', hname', hlookup'⟩
    cases hname.symm.trans hname'
    have heq := (hlookup (max enough enough') (le_max_left ..)).symm.trans
      (hlookup' (max enough enough') (le_max_right ..))
    injection heq with heq
    injection heq with heq
    injection heq with _ heq
    injection heq with heq _
    exact heq.symm
  · rintro rfl
    exact ⟨name, enough, log, hname, hlookup⟩

theorem CreateRequest.not_leadsTo (hname : q.name = none) (r : LookupResult) :
    ¬ q.LeadsTo env caller s r := by
  rintro ⟨name, enough, log, h, -⟩
  cases hname.symm.trans h

section
variable (hs : s.WellFormed caller) (htable : (s.tables caller.process).Wf)
  (hfresh : s.objects env.fresh = none)
include hs htable hfresh

theorem createFound_settles {r : LookupResult}
    (hprobe : ntSuccess q.probe) (hname : q.name ≠ none) (hsound : r.Sound s)
    (hleads : ∀ r', q.LeadsTo env caller s r' ↔ r' = r) :
    Settles s (createFound q env caller (s.after r) r) (q.Fails env caller s)
      (q.type.assertsOnZeroes ∧ q.FailsLate env caller s) := by
  have hfails : q.Fails env caller s →
      (∃ parent leaf, .leaf parent leaf = r ∧
        (env.objectPool = false ∨ ¬ ntSuccess env.capture ∨ env.namePool = false ∨
          env.HandleFails (s.tables caller.process))) ∨
      ∃ found, .object found = r ∧ q.attributes &&& objOpenIf ≠ 0 ∧
        s.type found = some q.type ∧ env.HandleFails (s.tables caller.process) := by
    rintro (h | h | ⟨parent, leaf, h, hrest⟩ | ⟨found, h, hrest⟩)
    · exact absurd hprobe h
    · exact absurd h.1 hname
    · exact .inl ⟨parent, leaf, (hleads _).mp h, hrest⟩
    · exact .inr ⟨found, (hleads _).mp h, hrest⟩
  have hlate : q.FailsLate env caller s →
      ∃ parent leaf, .leaf parent leaf = r ∧ env.objectPool ∧
        (¬ ntSuccess env.capture ∨ env.namePool = false ∨
          env.HandleFails (s.tables caller.process)) := by
    rintro ⟨-, hpool, h | ⟨parent, leaf, h, hrest⟩⟩
    · exact absurd h.1 hname
    · exact ⟨parent, leaf, (hleads _).mp h, hpool, hrest⟩
  cases r with
  | failed status =>
    apply settles_same
    · intro h
      obtain ⟨parent, leaf, h, -⟩ | ⟨found, h, -⟩ := hfails h <;> cases h
    · rintro ⟨-, h⟩
      obtain ⟨parent, leaf, h, -⟩ := hlate h
      cases h
  | object found =>
    apply (openExisting_settles htable (hsound.live found rfl)).congr
    · intro h
      obtain ⟨parent, leaf, h, -⟩ | ⟨found, h, hrest⟩ := hfails h
      · cases h
      · cases h
        exact hrest
    · refine iff_false_intro ?_
      rintro ⟨-, h⟩
      obtain ⟨parent, leaf, h, -⟩ := hlate h
      cases h
  | parse found remaining =>
    apply (openExisting_settles htable (hsound.live found rfl)).congr
    · intro h
      obtain ⟨parent, leaf, h, -⟩ | ⟨found, h, -⟩ := hfails h <;> cases h
    · refine iff_false_intro ?_
      rintro ⟨-, h⟩
      obtain ⟨parent, leaf, h, -⟩ := hlate h
      cases h
  | leaf parent leaf =>
    obtain ⟨htype, hleaf⟩ := hsound.leaf parent leaf rfl
    apply (createNamed_settles hs htable hfresh htype hleaf).congr
    · intro h
      obtain ⟨parent, leaf, h, hrest⟩ | ⟨found, h, -⟩ := hfails h
      · exact hrest
      · cases h
    · refine and_congr_right fun _ => ⟨?_, ?_⟩
      · intro h
        obtain ⟨parent, leaf, -, hrest⟩ := hlate h
        exact hrest
      · exact fun h => ⟨hprobe, h.1, .inr ⟨parent, leaf, (hleads _).mpr rfl, h.2⟩⟩

theorem obpCreateObjectWithHandle_settles :
    ∃ enough call, (∀ turns, enough ≤ turns →
        obpCreateObjectWithHandle q env caller turns s = call.map some) ∧
      Settles s call (q.Fails env caller s)
        (q.type.assertsOnZeroes ∧ q.FailsLate env caller s) := by
  by_cases hprobe : ntSuccess q.probe
  · obtain hname | ⟨name, hname⟩ := q.name.eq_none_or_eq_some
    · refine ⟨0, createUnnamed q env caller s, fun turns _ => ?_, ?_⟩
      · unfold obpCreateObjectWithHandle
        rw [if_neg (not_not.mpr hprobe), hname]
      · apply (createUnnamed_settles htable hfresh).congr
        · rintro (h | h | ⟨parent, leaf, h, -⟩ | ⟨found, h, -⟩)
          · exact absurd hprobe h
          · exact h.2
          · exact absurd h (q.not_leadsTo hname _)
          · exact absurd h (q.not_leadsTo hname _)
        · refine and_congr_right fun _ => ⟨?_, fun h => ⟨hprobe, h.1, .inl ⟨hname, h.2⟩⟩⟩
          rintro ⟨-, hpool, h | ⟨parent, leaf, h, -⟩⟩
          · exact ⟨hpool, h.2⟩
          · exact absurd h (q.not_leadsTo hname _)
    · obtain ⟨enough, r, log, hlookup, -, hsound, -⟩ :=
        obpLookupName_denotes (q := q.lookup env name) hs
      refine ⟨enough, createFound q env caller (s.after r) r, fun turns hle => ?_, ?_⟩
      · unfold obpCreateObjectWithHandle
        rw [if_neg (not_not.mpr hprobe), hname]
        dsimp only
        rw [hlookup turns hle]
        rfl
      · exact createFound_settles hs htable hfresh hprobe
          (by rw [hname]; exact Option.some_ne_none name) hsound (q.leadsTo_iff hname hlookup)
  · refine ⟨0, .ok (s, q.probe), fun turns _ => ?_, settles_failed hprobe fun h => hprobe h.2.1⟩
    unfold obpCreateObjectWithHandle
    rw [if_pos hprobe]
    rfl

end

/-- A creation that fails leaves no trace, but where something fails after the allocation of an object
whose delete procedure asserts on a body of zeroes. -/
theorem create_leavesNoTrace_iff (q : CreateRequest) (hs : s.WellFormed caller)
    (htable : (s.tables caller.process).Wf) (hfresh : s.objects env.fresh = none) :
    LeavesNoTrace q env caller s ↔
      ¬ (q.type.assertsOnZeroes ∧ q.FailsLate env caller s) := by
  obtain ⟨enough, call, hcall, ⟨hnot, s', status, hok, hfails, hsame⟩ | ⟨hlate, halt, herror⟩⟩ :=
    obpCreateObjectWithHandle_settles (q := q) hs htable hfresh
  · refine iff_of_true ⟨enough, s', status, fun turns hle => ?_, hfails, hsame⟩ hnot
    rw [hcall turns hle, hok]
    rfl
  · refine iff_of_false ?_ (not_not.mpr hlate)
    rintro ⟨enough', s', status, hcall', -⟩
    have heq := (hcall (max enough enough') (le_max_left ..)).symm.trans
      (hcall' (max enough enough') (le_max_right ..))
    rw [herror] at heq
    cases heq

end

/-- An event or a job `\J`, with a security descriptor. -/
def sampleCreate (type : ObjectType) (created : type.created) : CreateRequest where
  type
  created
  access := { validAccess := 0x1F0003 }
  desiredAccess := genericAll
  objectName := some ⟨[backslash, 0x4A], false⟩
  secured := true

def sampleUnreadable : CreateEnv where
  fresh := .other 9
  capture := statusAccessViolation

/-- An event is given up for its descriptor. -/
theorem create_leavesNoTrace_sample :
    LeavesNoTrace (sampleCreate .event rfl) sampleUnreadable sampleCaller sampleSpace ∧
      ∀ turns, ∃ s', obpCreateObjectWithHandle (sampleCreate .event rfl) sampleUnreadable sampleCaller
        (turns + 1) sampleSpace = .ok (some (s', statusAccessViolation)) :=
  ⟨(create_leavesNoTrace_iff (sampleCreate .event rfl) sampleSpace_wellFormed rfl rfl).mpr
    fun h => Bool.false_ne_true h.1, fun _ => ⟨_, rfl⟩⟩

/-- A job is given up for its descriptor, and the list of its processes is not there. -/
theorem create_leavesTrace :
    ¬ LeavesNoTrace (sampleCreate .job rfl) sampleUnreadable sampleCaller sampleSpace := by
  have herror : ∀ turns, obpCreateObjectWithHandle (sampleCreate .job rfl) sampleUnreadable sampleCaller
      (turns + 1) sampleSpace = .error .deleteProcedure := fun _ => rfl
  rintro ⟨enough, s', status, hcall, -⟩
  have hok := hcall (enough + 1) (Nat.le_succ enough)
  rw [herror] at hok
  cases hok

end Proskrnl.Ob
