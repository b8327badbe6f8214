import Proskrnl.Mm.Protection

/-!
# Reservations, page tables and frames

The address space of `kernel/mm/virtual.c` under its engines: the list of `MI_VAD`s with one
protection word a page, the user half of the page tables (`arch/x86_64/mmu.c`), the stack of free
frames (`kernel/mm/phys.c`), and the loops over the pages of one `MI_VAD`. A page is named by the
address of its first byte and a frame by its number; frame 0 is no frame. The tables between the top
and a leaf are not modelled: they are charged for before the first page is mapped.
-/

namespace Proskrnl.Mm

/-- Failed assertions and panics, and stores the pool does not hold. -/
inductive Halt
  /-- `ASSERT(frame != 0)`: a committed page keeps its frame. -/
  | frameMissing
  /-- `MiMapUserPage: user address already mapped` -/
  | alreadyMapped
  /-- `MiMapUserPage`: `virtualAddress < 2^47` -/
  | notCanonical
  /-- `MiUnmapUserPage: user address not mapped` -/
  | notMapped
  /-- `MiAllocatePool: zero-byte allocation` -/
  | zeroByteAllocation
  /-- `MiFreePage`: `page != 0` -/
  | freedNoFrame
  /-- `MiCarveVad`, `MiPreservePlaceholder` and others: `vad->type == MEM_PRIVATE` -/
  | notPrivate
  /-- `MiCarveVad`, `MiCloneVadRange`: the range is inside. -/
  | outsideVad
  /-- `MiCoalescePlaceholders`: `filled == pages` -/
  | mergeLength
  /-- `MiCommitFrameInVad`: views commit each page exactly once. -/
  | committedTwice
  /-- `MiCommitFrameInVad`: `ownedFrame == vad->ownsFrames` -/
  | ownership
  /-- `MiCommitReserveSectionRange`: `first + count <= section->pageCount` -/
  | sectionRange
  /-- `MiMapViewOfSectionEx`: the cache covers the view. -/
  | cacheRange
  /-- `MiMapViewOfSectionEx`: only a `SEC_RESERVE` section has a page without a frame. -/
  | uncommitted
  /-- `MipMasterCommitRange`: the page is in the master and has no frame yet. -/
  | masterRange
  /-- `MiBindVadImageMaster`, `MiAssertVadNoWritableMasterPteRange` -/
  | masterBinding
  /-- `MiDereferenceImageMaster`: `master->refCount > 0` -/
  | masterReference
  /-- Not a check of the source: an array is read or written past its end. -/
  | pastTheEnd
  deriving DecidableEq

/-- `MiFreeListHead` and what it threads, and the bytes of every frame. -/
@[ext] structure Physical where
  free : List Nat
  memory : Nat → Nat → UInt8

namespace Physical

/-- `MiAllocatePage` -/
def allocatePage (phys : Physical) : Option (Nat × Physical) :=
  match phys.free with
  | [] => none
  | frame :: free => some (frame, { phys with free })

/-- `MiFreePage` -/
def freePage (phys : Physical) (frame : Nat) : Physical :=
  { phys with free := frame :: phys.free }

/-- `memset(MiPhysicalToVirtual(frame), 0, PAGE_SIZE)` -/
def zeroFrame (phys : Physical) (frame : Nat) : Physical :=
  { phys with memory := Function.update phys.memory frame fun _ => 0 }

/-- `memcpy` of a whole frame. -/
def copyFrame (phys : Physical) (dest source : Nat) : Physical :=
  { phys with memory := Function.update phys.memory dest (phys.memory source) }

def store (phys : Physical) (frame offset : Nat) (byte : UInt8) : Physical :=
  { phys with memory :=
      Function.update phys.memory frame (Function.update (phys.memory frame) offset byte) }

end Physical

/-- A leaf of the user half. Frame and bits are kept while the page is not present. -/
structure Pte where
  frame : Nat
  present : Bool
  writable : Bool
  executable : Bool
  deriving DecidableEq

/-- The leaves of a `pml4Physical`, by page. -/
abbrev PageTable := Nat → Option Pte

def Pte.ofBits (frame : Nat) (bits : PteBits) (hwWritable : Bool) : Pte where
  frame
  present := bits.present
  writable := hwWritable
  executable := bits.executable

def miMapUserPage (table : PageTable) (page : Nat) (pte : Pte) : Except Halt PageTable :=
  if 2 ^ 47 ≤ page then .error .notCanonical
  else match table page with
    | some _ => .error .alreadyMapped
    | none => .ok (Function.update table page (some pte))

def miUnmapUserPage (table : PageTable) (page : Nat) : Except Halt PageTable :=
  match table page with
  | none => .error .notMapped
  | some _ => .ok (Function.update table page none)

/-- `MiUnmapUserPage`, then `MiMapUserPage` of the frame that was there. -/
def remapUserPage (table : PageTable) (page : Nat) (pte : Nat → Pte) : Except Halt PageTable :=
  match table page with
  | none => .error .frameMissing
  | some old => do
    let table ← miUnmapUserPage table page
    miMapUserPage table page (pte old.frame)

inductive VadType
  | memPrivate
  | memMapped
  | memImage
  deriving DecidableEq

/-- `MI_VAD`. The range a dying view owes the device is computed where the view dies. -/
structure Vad where
  base : Nat
  size : Nat
  allocationProtect : Nat
  pageProtect : List Nat
  type : VadType := .memPrivate
  /-- `sectionBody` -/
  section_ : Option Nat := none
  ownsFrames : Bool := true
  noCache : Bool := false
  writeWatch : Bool := false
  watchDirty : Option (List Bool) := none
  master : Option Nat := none
  pagePrivate : Option (List Bool) := none
  sectionOffset : Nat := 0
  /-- `MI_VAD_PLACEHOLDER` -/
  isPlaceholder : Bool := false
  /-- `MI_VAD_FREE_PLACEHOLDER` -/
  isFreePlaceholder : Bool := false
  deriving DecidableEq

namespace Vad

def limit (vad : Vad) : Nat := vad.base + vad.size

/-- `MiVadPageCount` -/
def pageCount (vad : Vad) : Nat := ulong (vad.size / pageSize)

/-- `(ULONG)((page - vad->base) / PAGE_SIZE)` -/
def index (vad : Vad) (page : Nat) : Nat := ulong ((page - vad.base) / pageSize)

/-- `vad->pageProtect[index]` -/
def protectAt (vad : Vad) (index : Nat) : Nat := vad.pageProtect.getD index 0

def setProtect (vad : Vad) (index protect : Nat) : Vad :=
  { vad with pageProtect := vad.pageProtect.set index protect }

/-- `vad->watchDirty[index]` -/
def isDirty (vad : Vad) (index : Nat) : Bool := (vad.watchDirty.getD []).getD index false

def setDirty (vad : Vad) (index : Nat) (dirty : Bool) : Vad :=
  { vad with watchDirty := vad.watchDirty.map (·.set index dirty) }

/-- `vad->pagePrivate[index]` -/
def isPrivate (vad : Vad) (index : Nat) : Bool := (vad.pagePrivate.getD []).getD index false

def setPrivate (vad : Vad) (index : Nat) (owned : Bool) : Vad :=
  { vad with pagePrivate := vad.pagePrivate.map (·.set index owned) }

/-- `MipVadPageHwWritable` -/
def pageHwWritable (vad : Vad) (index : Nat) (protectionWritable : Bool) : Bool :=
  if !protectionWritable then false
  else if vad.writeWatch && vad.watchDirty.isSome && !vad.isDirty index then false
  else if vad.master.isSome && vad.pagePrivate.isSome && !vad.isPrivate index then false
  else true

def ownsFrameAt (vad : Vad) (index : Nat) : Bool :=
  match vad.pagePrivate with
  | some _ => vad.isPrivate index
  | none => vad.ownsFrames

def leaf (vad : Vad) (index frame protect : Nat) : Pte :=
  let bits := miProtectToPteBits protect
  .ofBits frame bits (vad.pageHwWritable index bits.writable)

end Vad

def miCreateVad (base size allocationProtect : Nat) : Vad where
  base
  size
  allocationProtect
  pageProtect := List.replicate (size / pageSize) 0

def miFindVad : List Vad → Nat → Option Vad
  | [], _ => none
  | vad :: rest, address =>
    if vad.base ≤ address ∧ address < vad.limit then some vad
    else if address < vad.base then none
    else miFindVad rest address

def miRangeIsFree : List Vad → Nat → Nat → Bool
  | [], _, _ => true
  | vad :: rest, base, size =>
    if base < vad.limit ∧ vad.base < base + size then false
    else if base + size ≤ vad.base then true
    else miRangeIsFree rest base size

/-- The walk of `MiFindFreeRegion`: the candidate moves up past every reservation in its way. -/
def freeRegionFrom (size align : Nat) : List Vad → Nat → Nat
  | [], candidate => candidate
  | vad :: rest, candidate =>
    if candidate + size ≤ vad.base then candidate
    else freeRegionFrom size align rest
      (if candidate < vad.limit then miRoundUp vad.limit align else candidate)

def miFindFreeRegion (vads : List Vad) (size limitLow limitHigh align : Nat) : Nat :=
  let align := max align miAllocationGranularity
  let limitHigh := if limitHigh = 0 then kiUserSpaceLimit - 1 else limitHigh
  let floor := max miLowestUserAddress limitLow
  let candidate := freeRegionFrom size align vads (miRoundUp floor align)
  if candidate + size - 1 ≤ limitHigh ∧ candidate + size ≤ kiUserSpaceLimit then candidate else 0

def miInsertVad (vads : List Vad) (vad : Vad) : List Vad :=
  vads.orderedInsert (fun a b => a.base ≤ b.base) vad

/-- A store through the pointer to a reservation of the list. -/
def putVad (vads : List Vad) (vad : Vad) : List Vad :=
  vads.map fun v => if v.base = vad.base then vad else v

/-- `RemoveEntryList` -/
def removeVad (vads : List Vad) (vad : Vad) : List Vad :=
  vads.filter fun v => v.base ≠ vad.base

structure Walk where
  phys : Physical
  table : PageTable
  vad : Vad

def eachPage (f : Nat → Walk → Except Halt (Walk × NtStatus)) :
    Nat → Nat → Walk → Except Halt (Walk × NtStatus)
  | _, 0, w => .ok (w, statusSuccess)
  | page, n + 1, w => do
    let (w, status) ← f page w
    if ntSuccess status then eachPage f (page + pageSize) n w else .ok (w, status)

/-- The body of `MiCommitPages`. -/
def commitPage (protect page : Nat) (w : Walk) : Except Halt (Walk × NtStatus) :=
  let index := w.vad.index page
  if w.vad.protectAt index = 0 then
    match w.phys.allocatePage with
    | none => .ok (w, statusNoMemory)
    | some (frame, phys) => do
      let table ← miMapUserPage w.table page (w.vad.leaf index frame protect)
      .ok (⟨phys.zeroFrame frame, table, w.vad.setProtect index protect⟩, statusSuccess)
  else if w.vad.protectAt index ≠ protect then do
    let table ← remapUserPage w.table page fun frame => w.vad.leaf index frame protect
    .ok ({ w with table, vad := w.vad.setProtect index protect }, statusSuccess)
  else .ok (w, statusSuccess)

/-- `tables` is the answer of `MiChargeUserTables`; the frames that it takes for tables are gone before. -/
def miCommitPages (tables : Bool) (base size protect : Nat) (w : Walk) :
    Except Halt (Walk × NtStatus) :=
  if tables then eachPage (commitPage protect) base (size / pageSize) w
  else .ok (w, statusNoMemory)

/-- The body of `MiDecommitPages`. -/
def decommitPage (page : Nat) (w : Walk) : Except Halt (Walk × NtStatus) :=
  let index := w.vad.index page
  if w.vad.protectAt index = 0 then .ok (w, statusSuccess)
  else match w.table page with
    | none => .error .frameMissing
    | some pte => do
      let table ← miUnmapUserPage w.table page
      let phys := if w.vad.ownsFrameAt index then w.phys.freePage pte.frame else w.phys
      .ok (⟨phys, table, w.vad.setProtect index 0⟩, statusSuccess)

def miDecommitPages (base size : Nat) (w : Walk) : Except Halt Walk := do
  let (w, _) ← eachPage decommitPage base (size / pageSize) w
  .ok w

/-- The last loop of `MiProtectVirtualMemory`. -/
def protectPage (protect page : Nat) (w : Walk) : Except Halt (Walk × NtStatus) := do
  let index := w.vad.index page
  let table ← remapUserPage w.table page fun frame => w.vad.leaf index frame protect
  .ok ({ w with table, vad := w.vad.setProtect index protect }, statusSuccess)

/-- Which of the allocations from the pool succeed, and the charge for page tables. -/
structure Grants where
  record : Bool := true
  watch : Bool := true
  tables : Bool := true
  head : Bool := true
  tail : Bool := true
  carved : Bool := true
  fresh : Bool := true
  deriving DecidableEq

/-- An array of the pool after `memcpy` into its front. -/
def filled {α : Type} (length : Nat) (zero : α) (source : List α) : List α :=
  source ++ List.replicate (length - source.length) zero

def miCloneVadRange (vad : Vad) (base size : Nat) : Except Halt Vad :=
  if base < vad.base ∨ vad.limit < base + size then .error .outsideVad
  else
    let firstPage := ulong ((base - vad.base) / pageSize)
    let pages := ulong (size / pageSize)
    if vad.watchDirty.isSome ∧ pages = 0 then .error .zeroByteAllocation
    else .ok { miCreateVad base size vad.allocationProtect with
      isPlaceholder := vad.isPlaceholder
      isFreePlaceholder := vad.isFreePlaceholder
      noCache := vad.noCache
      pageProtect := filled (size / pageSize) 0 ((vad.pageProtect.drop firstPage).take pages)
      watchDirty := vad.watchDirty.map fun dirty => (dirty.drop firstPage).take pages
      writeWatch := vad.writeWatch }

/-- The list without the reservation but with what of it lies outside the range, and
with the range itself where the caller keeps it. -/
def miCarveVad (grants : Grants) (vads : List Vad) (vad : Vad) (base size : Nat)
    (keepCarved : Bool) : Except Halt (List Vad × Option Vad × NtStatus) :=
  if vad.type ≠ .memPrivate then .error .notPrivate
  else if base < vad.base ∨ vad.limit < base + size then .error .outsideVad
  else
    let wantHead := vad.base < base
    let wantTail := base + size < vad.limit
    if (wantHead ∧ !grants.head) ∨ (wantTail ∧ !grants.tail) ∨ (keepCarved ∧ !grants.carved) then
      .ok (vads, none, statusNoMemory)
    else do
      let rest := removeVad vads vad
      let rest ← if wantHead then
        (miCloneVadRange vad vad.base (base - vad.base)).map (miInsertVad rest) else .ok rest
      let rest ← if wantTail then
        (miCloneVadRange vad (base + size) (vad.limit - (base + size))).map (miInsertVad rest)
        else .ok rest
      if keepCarved then do
        let carved ← miCloneVadRange vad base size
        .ok (miInsertVad rest carved, some carved, statusSuccess)
      else .ok (rest, none, statusSuccess)

end Proskrnl.Mm
