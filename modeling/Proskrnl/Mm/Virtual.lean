import Proskrnl.Mm.Section

/-!
# The engines of user virtual memory

`kernel/mm/virtual.c`: `MiAllocateVirtualMemoryEx`, `MiFreeVirtualMemory` with placeholders,
`MiProtectVirtualMemory`, and the write-watch and copy-on-write resolution.
-/

namespace Proskrnl.Mm

def memCommit : Nat := 0x00001000
def memReserve : Nat := 0x00002000
def memReset : Nat := 0x00080000
def memDecommit : Nat := 0x00004000
def memRelease : Nat := 0x00008000
def memWriteWatch : Nat := 0x00200000
def memReplacePlaceholder : Nat := 0x00004000
def memReservePlaceholder : Nat := 0x00040000
def memCoalescePlaceholders : Nat := 0x00000001
def memPreservePlaceholder : Nat := 0x00000002

/-- `~(MEM_COMMIT | MEM_RESERVE | MEM_TOP_DOWN | MEM_WRITE_WATCH | MEM_RESET |
MEM_RESERVE_PLACEHOLDER | MEM_REPLACE_PLACEHOLDER)` -/
def unknownAllocationTypes : Nat := 0xffc38fff

structure Reply where
  status : NtStatus
  base : Nat := 0
  size : Nat := 0
  oldProtect : Nat := 0
  deriving DecidableEq

def refuse (m : Machine) (status : NtStatus) : Except Halt (Machine × Reply) :=
  .ok (m, { status })

def replied (x : Except Halt (Machine × Reply)) : Except Halt (Machine × NtStatus) :=
  x.map fun (m, reply) => (m, reply.status)

def miCheckViewProtection (vad : Vad) (protect : Nat) : NtStatus :=
  let image := vad.type == .memImage
  match miVprotAccess protect image with
  | none => statusInvalidPageProtection
  | some wanted =>
    if vad.type = .memPrivate then
      if isWriteCopy protect then statusInvalidPageProtection else statusSuccess
    else match miVprotAccess vad.allocationProtect image with
      | none => statusInvalidPageProtection
      | some granted =>
        if granted.grants wanted then statusSuccess else statusInvalidPageProtection

/-- `MipVadMasterIndex` and `MiImageMasterFrame` -/
def masterFrame (m : Machine) (id : Nat) (vad : Vad) (index : Nat) : Option Nat := do
  let master ← m.masters[id]?.join
  master.frames[index + ulong (vad.sectionOffset / pageSize)]?

/-- One page of `MiAssertVadNoWritableMasterPteRange`. -/
def masterPageHolds (m : Machine) (id : Nat) (table : PageTable) (vad : Vad) (page : Nat) : Bool :=
  let index := vad.index page
  if vad.protectAt index = 0 then true
  else match table page, masterFrame m id vad index with
    | some pte, some frame =>
      if vad.isPrivate index then pte.frame != frame else pte.frame == frame && !pte.writable
    | _, _ => false

def miAssertVadNoWritableMasterPteRange (m : Machine) (table : PageTable) (vad : Vad)
    (base pages : Nat) : Except Halt Unit :=
  match vad.master with
  | none => .ok ()
  | some id =>
    if (List.range pages).all fun i => masterPageHolds m id table vad (base + i * pageSize) then
      .ok ()
    else .error .masterBinding

/-- The word an image page is given: a writable one becomes copy-on-write. -/
def imageProtect (type : VadType) (protect : Nat) : Nat :=
  let guard := if isGuarded protect then pageGuard else 0
  if type ≠ .memImage then protect
  else if baseProtect protect = pageReadWrite then guard + pageWriteCopy
  else if baseProtect protect = pageExecuteReadWrite then guard + pageExecuteWriteCopy
  else protect

/-- The ladder of `MiProtectVirtualMemory` below the search: a status that refuses, or success. -/
def protectStatus (m : Machine) (vad : Vad) (base pages protect : Nat) : NtStatus :=
  if vad.protectAt (vad.index base) = 0 then statusNotCommitted
  else if (List.range pages).any fun i => vad.protectAt (vad.index (base + i * pageSize)) == 0 then
    statusNotCommitted
  else if !isWriteCopy protect ∧ !ntSuccess (miCheckPageProtect protect) then
    miCheckPageProtect protect
  else if isWriteCopy protect ∧ vad.type = .memPrivate then statusInvalidPageProtection
  else if !ntSuccess (miCheckViewProtection vad protect) then miCheckViewProtection vad protect
  else if vad.type = .memMapped ∧ !vad.ownsFrames ∧ isReadWrite protect then
    match vad.section_.bind fun s => m.sections[s]?.join with
    | some body => if body.backingWritable then statusSuccess else statusInvalidPageProtection
    | none => statusInvalidPageProtection
  else statusSuccess

def miProtectVirtualMemory (m : Machine) (p : Nat) (space : Space) (address size newProtect : Nat) :
    Except Halt (Machine × Reply) :=
  let protect := miStoredPageProtect newProtect
  let base := miRoundDown address pageSize
  let end_ := miRoundUp (uint64 (address + size)) pageSize
  if end_ < base then refuse m statusInvalidParameter
  else match miFindVad space.vads base with
    | none => refuse m statusInvalidParameter
    | some vad =>
      if vad.limit < end_ then refuse m statusInvalidParameter
      else
        let pages := (end_ - base) / pageSize
        let status := protectStatus m vad base pages protect
        if !ntSuccess status then refuse m status
        else do
          let (w, _) ← eachPage (protectPage (imageProtect vad.type protect)) base pages
            ⟨m.phys, space.table, vad⟩
          miAssertVadNoWritableMasterPteRange m w.table w.vad base pages
          .ok (m.putWalk p space w,
            { status := statusSuccess
              base
              size := end_ - base
              oldProtect := miReportedPageProtect vad.noCache (vad.protectAt (vad.index base)) })

def miReplacePlaceholder (grants : Grants) (m : Machine) (p : Nat) (space : Space)
    (base size type protect : Nat) (noCache : Bool) : Except Halt (Machine × Reply) :=
  match miFindVad space.vads base with
  | none => refuse m statusInvalidParameter
  | some vad =>
    if vad.base ≠ base ∨ vad.size ≠ size then refuse m statusConflictingAddresses
    else if !vad.isFreePlaceholder then refuse m statusInvalidParameter
    else if vad.type ≠ .memPrivate then .error .notPrivate
    else if hasFlag type memWriteWatch ∧ !grants.watch then refuse m statusNoMemory
    else
      let watchDirty := if hasFlag type memWriteWatch then
        some (List.replicate (size / pageSize) false) else none
      let replaced := { vad with
        watchDirty
        writeWatch := watchDirty.isSome
        allocationProtect := protect
        noCache
        isPlaceholder := true
        isFreePlaceholder := hasFlag type memReservePlaceholder }
      let reply := { status := statusSuccess, base, size : Reply }
      if hasFlag type memCommit then do
        let (w, status) ← miCommitPages grants.tables base size protect
          ⟨m.phys, space.table, replaced⟩
        if ntSuccess status then .ok (m.putWalk p space w, reply)
        else do
          let w ← miDecommitPages base size w
          let restored := { vad with pageProtect := w.vad.pageProtect }
          .ok (m.putWalk p space { w with vad := restored }, { status })
      else .ok (m.putWalk p space ⟨m.phys, space.table, replaced⟩, reply)

/-- The reserve arm of `MiAllocateVirtualMemoryEx`, from `MiCreateVad` on. -/
def reserveRange (grants : Grants) (m : Machine) (p : Nat) (space : Space)
    (base size type protect : Nat) (noCache : Bool) : Except Halt (Machine × Reply) :=
  if !grants.record ∨ (hasFlag type memWriteWatch ∧ !grants.watch) then refuse m statusNoMemory
  else
    let watch := hasFlag type memWriteWatch
    let placeholder := hasFlag type memReservePlaceholder
    let vad := { miCreateVad base size protect with
      noCache
      writeWatch := watch
      watchDirty := if watch then some (List.replicate (size / pageSize) false) else none
      isPlaceholder := placeholder
      isFreePlaceholder := placeholder }
    let space := { space with vads := miInsertVad space.vads vad }
    let reply := { status := statusSuccess, base, size : Reply }
    if hasFlag type memCommit then do
      let (w, status) ← miCommitPages grants.tables base size protect ⟨m.phys, space.table, vad⟩
      if ntSuccess status then .ok (m.putWalk p space w, reply)
      else do
        let w ← miDecommitPages base size w
        let m ← miUnlinkAndFreeVad { m with phys := w.phys } p { space with table := w.table } w.vad
        .ok (m, { status })
    else .ok (m.setSpace p space, reply)

/-- The commit arm of `MiAllocateVirtualMemoryEx`. -/
def commitRange (grants : Grants) (m : Machine) (p : Nat) (space : Space)
    (base size protect : Nat) : Except Halt (Machine × Reply) :=
  match miFindVad space.vads base with
  | none => refuse m statusNotMappedView
  | some vad =>
    let body := vad.section_.bind fun s => (m.sections[s]?.join).map (s, ·)
    let reply := { status := statusSuccess, base, size : Reply }
    if vad.limit < base + size then refuse m statusNotMappedView
    else if vad.type ≠ .memPrivate ∧ body.all fun b => hasFlag b.2.attributes secFile then
      refuse m statusAlreadyCommitted
    else if vad.isFreePlaceholder then refuse m statusConflictingAddresses
    else if !ntSuccess (miCheckViewProtection vad protect) then
      refuse m (miCheckViewProtection vad protect)
    else if vad.type = .memPrivate then do
      let (w, status) ← miCommitPages grants.tables base size protect ⟨m.phys, space.table, vad⟩
      .ok (m.putWalk p space w, if ntSuccess status then reply else { status })
    else match body with
      | none => refuse m statusAlreadyCommitted
      | some (s, body) => do
        let (m, status) ← if hasFlag body.attributes secReserve then
          miCommitReserveSectionRange grants m s body p vad base size protect
          else .ok (m, statusSuccess)
        if !ntSuccess status then .ok (m, { status })
        else match m.space p with
          | none => .ok (m, reply)
          | some space => do
            let (m, protected_) ← miProtectVirtualMemory m p space base size protect
            .ok (m, if ntSuccess protected_.status then reply else { status := protected_.status })

structure AllocationRequest where
  base : Nat
  size : Nat
  type : Nat
  protect : Nat
  limitLow : Nat := 0
  limitHigh : Nat := 0
  align : Nat := 0
  /-- `attributes & MEM_EXTENDED_PARAMETER_EC_CODE` -/
  ecCode : Bool := false
  deriving DecidableEq

def baseAlignment (type : Nat) : Nat :=
  if hasFlag type memReserve ∧ !hasFlag type memReplacePlaceholder then miAllocationGranularity
  else pageSize

/-- The rounded range of a request; 0 stands for a base to be found. -/
def roundedRange (r : AllocationRequest) : Nat × Nat :=
  if r.base ≠ 0 then
    let base := miRoundDown r.base (baseAlignment r.type)
    (base, uint64 (miRoundUp (uint64 (r.base + r.size)) pageSize + 2 ^ 64 - base))
  else (0, miRoundUp r.size pageSize)

/-- The checks of `MiAllocateVirtualMemoryEx` before it looks at the address space. -/
def allocationStatus (r : AllocationRequest) : NtStatus :=
  let (base, size) := roundedRange r
  if r.size = 0 then statusInvalidParameter
  else if hasFlag r.type unknownAllocationTypes then statusInvalidParameter
  else if kiUserSpaceLimit < r.size then statusWorkingSetLimitRange
  else if !hasFlag r.type (memCommit ||| memReserve ||| memReset) ∨
      (hasFlag r.type memReplacePlaceholder ∧ !hasFlag r.type memReserve) then
    statusInvalidParameter
  else if hasFlag r.type memReservePlaceholder ∧ r.protect ≠ pageNoAccess then
    statusInvalidParameter
  else if r.ecCode then statusInvalidParameter
  else if r.base ≠ 0 ∧ (base < miLowestUserAddress ∨ uint64 (base + size) < base ∨
      kiUserSpaceLimit < uint64 (base + size)) then statusInvalidParameter
  else if size = 0 then statusInvalidParameter
  else statusSuccess

def miAllocateVirtualMemoryEx (grants : Grants) (m : Machine) (p : Nat) (space : Space)
    (r : AllocationRequest) : Except Halt (Machine × Reply) :=
  let (base, size) := roundedRange r
  if allocationStatus r ≠ statusSuccess then refuse m (allocationStatus r)
  else if hasFlag r.type memReset then
    match miFindVad space.vads base with
    | none => refuse m statusNotMappedView
    | some vad =>
      if vad.limit < base + size then refuse m statusNotMappedView
      else .ok (m, { status := statusSuccess, base, size })
  else
    let noCache := hasFlag r.protect pageNoCache
    let protect := miStoredPageProtect r.protect
    if hasFlag r.type memReserve ∨ r.base = 0 then
      if !ntSuccess (miCheckPageProtect protect) then refuse m (miCheckPageProtect protect)
      else if hasFlag r.type memReplacePlaceholder then
        miReplacePlaceholder grants m p space base size r.type protect noCache
      else if r.base = 0 then
        let base := miFindFreeRegion space.vads size r.limitLow r.limitHigh r.align
        if base = 0 then refuse m statusNoMemory
        else reserveRange grants m p space base size r.type protect noCache
      else if !miRangeIsFree space.vads base size then refuse m statusConflictingAddresses
      else reserveRange grants m p space base size r.type protect noCache
    else commitRange grants m p space base size protect

def miPreservePlaceholder (grants : Grants) (m : Machine) (p : Nat) (space : Space) (vad : Vad)
    (base size : Nat) : Except Halt (Machine × Reply) :=
  if size = 0 then refuse m statusInvalidParameter3
  else if !vad.isPlaceholder then refuse m statusConflictingAddresses
  else if vad.isFreePlaceholder ∧ size = vad.size then refuse m statusConflictingAddresses
  else if vad.type ≠ .memPrivate then .error .notPrivate
  else do
    let (vads, carved, status) ← if size < vad.size then
      miCarveVad grants space.vads vad base size true else .ok (space.vads, some vad, statusSuccess)
    match carved with
    | none => refuse m status
    | some vad => do
      let w ← miDecommitPages vad.base vad.size ⟨m.phys, space.table, vad⟩
      let emptied := { w.vad with
        allocationProtect := pageNoAccess
        isPlaceholder := true
        isFreePlaceholder := true
        watchDirty := none
        writeWatch := false }
      .ok (m.putWalk p { space with vads } { w with vad := emptied },
        { status := statusSuccess, base, size })

/-- The free placeholders that touch, from the first of a list on, until they cover a size. -/
def placeholderRun (size : Nat) : Nat → List Vad → List Vad
  | _, [] => []
  | covered, vad :: rest =>
    if !vad.isFreePlaceholder then []
    else if size ≤ covered + vad.size then [vad]
    else match rest with
      | [] => [vad]
      | next :: _ =>
        if vad.limit ≠ next.base then [vad]
        else vad :: placeholderRun size (covered + vad.size) rest

/-- The record of a run of placeholders, page by page. -/
def mergedProtect (run : List Vad) : List Nat :=
  run.flatMap fun vad => vad.pageProtect.take vad.pageCount

/-- The dirty bytes of a run; a placeholder without any is clean. -/
def mergedWatch (run : List Vad) : List Bool :=
  run.flatMap fun vad => match vad.watchDirty with
    | some dirty => dirty.take vad.pageCount
    | none => List.replicate vad.pageCount false

def miCoalescePlaceholders (grants : Grants) (m : Machine) (p : Nat) (space : Space) (vad : Vad)
    (base size : Nat) : Except Halt (Machine × Reply) :=
  if size = 0 then refuse m statusInvalidParameter3
  else if base ≠ vad.base then refuse m statusConflictingAddresses
  else
    let run := placeholderRun size 0 (space.vads.dropWhile (·.base ≠ vad.base))
    let covered := (run.map Vad.size).sum
    let pages := ulong (size / pageSize)
    if run.any (·.type != .memPrivate) then .error .notPrivate
    else if run.length < 2 ∨ covered ≠ size then refuse m statusConflictingAddresses
    else if pages = 0 then .error .zeroByteAllocation
    else if !grants.record ∨ (vad.writeWatch ∧ !grants.watch) then refuse m statusNoMemory
    else if pages < (mergedProtect run).length then .error .pastTheEnd
    else if (mergedProtect run).length ≠ pages then .error .mergeLength
    else
      let merged := { vad with
        pageProtect := mergedProtect run
        watchDirty := if vad.writeWatch then some (mergedWatch run) else none
        size }
      let vads := (run.drop 1).foldl removeVad space.vads
      .ok (m.setSpace p { space with vads := putVad vads merged },
        { status := statusSuccess, base, size })

def miFreeVirtualMemory (grants : Grants) (m : Machine) (p : Nat) (space : Space)
    (address givenSize type : Nat) : Except Halt (Machine × Reply) :=
  let base := miRoundDown address pageSize
  let size := if givenSize ≠ 0 then
    uint64 (miRoundUp (uint64 (address + givenSize)) pageSize + 2 ^ 64 - base) else 0
  if base = 0 then refuse m statusInvalidParameter
  else match miFindVad space.vads base with
    | none => refuse m statusMemoryNotAllocated
    | some vad =>
      if vad.type ≠ .memPrivate then refuse m statusInvalidParameter
      else if size = 0 ∧ base ≠ vad.base then refuse m statusFreeVmNotAtBase
      else if vad.limit - base < size ∧ !hasFlag type memCoalescePlaceholders then
        refuse m statusUnableToFreeVm
      else if type = memDecommit then do
        let w ← miDecommitPages base (if size ≠ 0 then size else vad.limit - base)
          ⟨m.phys, space.table, vad⟩
        .ok (m.putWalk p space w, { status := statusSuccess, base, size })
      else if type = memRelease then do
        let size := if size = 0 then vad.size else size
        let w ← miDecommitPages base size ⟨m.phys, space.table, vad⟩
        let (vads, _, status) ← miCarveVad grants (putVad space.vads w.vad) w.vad base size false
        .ok ({ m with phys := w.phys }.setSpace p { space with vads, table := w.table },
          if ntSuccess status then { status, base, size } else { status })
      else if type = memRelease ||| memPreservePlaceholder then
        miPreservePlaceholder grants m p space vad base size
      else if type = memRelease ||| memCoalescePlaceholders then
        miCoalescePlaceholders grants m p space vad base size
      else if type = memCoalescePlaceholders then refuse m statusInvalidParameter4
      else refuse m statusInvalidParameter

def mipRemapWatchPage (page index : Nat) (w : Walk) : Except Halt Walk :=
  let protect := w.vad.protectAt index
  if !(miProtectToPteBits protect).present then .ok w
  else do
    let table ← remapUserPage w.table page fun frame => w.vad.leaf index frame protect
    .ok { w with table }

def miResolveWriteFault (m : Machine) (p : Nat) (space : Space) (page : Nat) :
    Except Halt (Machine × Option NtStatus) :=
  match miFindVad space.vads page with
  | none => .ok (m, none)
  | some vad =>
    let index := vad.index page
    let protect := vad.protectAt index
    if protect = 0 ∨ isGuarded protect then .ok (m, none)
    else if !(miProtectToPteBits protect).writable then .ok (m, none)
    else if vad.writeWatch then
      if vad.isDirty index then .ok (m, none)
      else do
        let w ← mipRemapWatchPage page index ⟨m.phys, space.table, vad.setDirty index true⟩
        .ok (m.putWalk p space w, some statusSuccess)
    else match vad.master with
      | none => .ok (m, none)
      | some id =>
        if vad.isPrivate index then .ok (m, none)
        else match m.phys.allocatePage with
          | none => .ok (m, some statusInPageError)
          | some (copy, phys) =>
            match space.table page with
            | none => .error .frameMissing
            | some pte =>
              if masterFrame m id vad index ≠ some pte.frame then .error .masterBinding
              else do
                let vad := vad.setPrivate index true
                let table ← miUnmapUserPage space.table page
                let table ← miMapUserPage table page (vad.leaf index copy protect)
                .ok (m.putWalk p space ⟨phys.copyFrame copy pte.frame, table, vad⟩,
                  some statusSuccess)

end Proskrnl.Mm
