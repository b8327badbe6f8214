import Proskrnl.Mm.Image
import Proskrnl.Mm.Vad

/-!
# Sections, page caches and image masters

The machine the memory manager works on, and the part of it that views share: the frames of an
anonymous section with its ledger of committed pages, the page cache of a file
(`kernel/mm/pagecache.c`), and the relocated copy of an image that all its views map
(`kernel/mm/section.c`). Objects are named by their place in a list, which is never used again.
-/

namespace Proskrnl.Mm

def secFile : Nat := 0x00800000
def secImage : Nat := 0x01000000
def secReserve : Nat := 0x04000000
/-- `MI_ADDRESS_SPACE` -/
structure Space where
  vads : List Vad := []
  table : PageTable := fun _ => none
  /-- `machine`: that of the image the process runs. -/
  imageMachine : Nat := imageFileMachineAmd64

/-- `MI_PAGE_CACHE` with the frames it holds. -/
structure PageCache where
  fileSize : Nat := 0
  frames : List Nat := []
  deriving DecidableEq

/-- `MI_IMAGE_MASTER`; a page without a frame has frame 0. -/
structure ImageMaster where
  identity : Nat
  base : Nat
  frames : List Nat
  refCount : Nat
  deriving DecidableEq

/-- `MI_SECTION`, and how many handles and kernel references it has beside its views. -/
structure Section where
  attributes : Nat
  pageProtection : Nat
  size : Nat
  pageCount : Nat
  /-- Anonymous sections: the frames, which are the ledger of a `SEC_RESERVE` one. -/
  frames : List Nat := []
  /-- Sections of a file: its page cache. -/
  cache : Option Nat := none
  image : Option ImageInfo := none
  /-- `masterIdentity`: the file. -/
  identity : Nat := 0
  /-- The snapshot of the file, until the first view is bound. -/
  rawData : Option (List UInt8) := none
  rawSize : Nat := 0
  backingWritable : Bool
  references : Nat := 1
  deriving DecidableEq

structure Machine where
  phys : Physical
  spaces : List (Option Space) := []
  sections : List (Option Section) := []
  caches : List (Option PageCache) := []
  masters : List (Option ImageMaster) := []
  /-- `PspSharedUserDataFrame` -/
  sharedUserData : Nat
  /-- The upper half of every top-level table, as it was frozen at boot. -/
  kernelPml4 : Nat → Nat

namespace Machine

def space (m : Machine) (p : Nat) : Option Space := m.spaces[p]?.join

def setSpace (m : Machine) (p : Nat) (space : Space) : Machine :=
  { m with spaces := m.spaces.set p (some space) }

/-- The machine after a loop over the pages of a reservation. -/
def putWalk (m : Machine) (p : Nat) (space : Space) (w : Walk) : Machine :=
  { m with phys := w.phys }.setSpace p
    { space with vads := putVad space.vads w.vad, table := w.table }

def viewsOf (m : Machine) (s : Nat) : List (Nat × Nat) :=
  m.spaces.zipIdx.flatMap fun (space, p) => match space with
    | none => []
    | some space => (space.vads.filter (·.section_ == some s)).map fun vad => (p, vad.base)

end Machine

/-- `MiFreePage` of every page that has a frame. -/
def freeFrames (phys : Physical) (frames : List Nat) : Physical :=
  (frames.filter (· ≠ 0)).foldl Physical.freePage phys

/-- `MiAllocatePage` and `memset`, for so many pages. -/
def allocateZeroed : Nat → Physical → Option (List Nat × Physical)
  | 0, phys => some ([], phys)
  | n + 1, phys => do
    let (frame, phys) ← phys.allocatePage
    let (frames, phys) ← allocateZeroed n (phys.zeroFrame frame)
    some (frame :: frames, phys)

def miDereferenceImageMaster (m : Machine) (id : Nat) : Except Halt Machine :=
  match m.masters[id]?.join with
  | none => .error .masterReference
  | some master =>
    if master.refCount = 0 then .error .masterReference
    else if master.refCount = 1 then
      .ok { m with phys := freeFrames m.phys master.frames, masters := m.masters.set id none }
    else
      let master := { master with refCount := master.refCount - 1 }
      .ok { m with masters := m.masters.set id (some master) }

/-- `ObDereferenceObject` of a section that a view, a handle or running code has let go:
`MipDeleteSection` when that was the last. -/
def releaseSection (m : Machine) (s : Nat) : Machine :=
  match m.sections[s]?.join with
  | none => m
  | some body =>
    if body.references = 0 ∧ m.viewsOf s = [] then
      { m with phys := freeFrames m.phys body.frames, sections := m.sections.set s none }
    else m

def miUnlinkAndFreeVad (m : Machine) (p : Nat) (space : Space) (vad : Vad) :
    Except Halt Machine := do
  let m := m.setSpace p { space with vads := removeVad space.vads vad }
  let m ← match vad.master with
    | some id => miDereferenceImageMaster m id
    | none => .ok m
  .ok (match vad.section_ with
    | some s => releaseSection m s
    | none => m)

def miCommitFrameInVad (page frame protect : Nat) (ownedFrame : Bool) (w : Walk) :
    Except Halt Walk :=
  let index := w.vad.index page
  if page < w.vad.base ∨ w.vad.pageCount ≤ index then .error .outsideVad
  else if w.vad.protectAt index ≠ 0 then .error .committedTwice
  else if w.vad.pagePrivate.isNone ∧ ownedFrame ≠ w.vad.ownsFrames then .error .ownership
  else do
    let vad := (w.vad.setPrivate index ownedFrame).setProtect index protect
    let table ← miMapUserPage w.table page (vad.leaf index frame protect)
    .ok { w with table, vad }

def mipReserveViewWants (view : Vad) (sectionIndex : Nat) : Bool :=
  let viewFirst := ulong (view.sectionOffset / pageSize)
  if sectionIndex < viewFirst ∨ view.pageCount ≤ sectionIndex - viewFirst then false
  else view.protectAt (sectionIndex - viewFirst) == 0

/-- The view a pair of process and base names. -/
def Machine.view (m : Machine) (v : Nat × Nat) : Option Vad := do
  let space ← m.space v.1
  space.vads.find? (·.base == v.2)

/-- How many frames the commit of a range needs. -/
def reserveNeeded (m : Machine) (body : Section) (s first count : Nat) : Nat :=
  let indices := List.range' first count
  indices.countP (body.frames.getD · 0 == 0) +
    ((m.viewsOf s).map fun v => match m.view v with
      | some view => if view.ownsFrames then indices.countP (mipReserveViewWants view) else 0
      | none => 0).sum

/-- The ledger of a section with fresh frames where a range had none; what is left of them. -/
def fillLedger : List Nat → List Nat → List Nat → List Nat × List Nat
  | [], frames, fresh => (frames, fresh)
  | i :: is, frames, fresh =>
    if frames.getD i 0 = 0 then fillLedger is (frames.set i (fresh.headD 0)) fresh.tail
    else fillLedger is frames fresh

/-- The pages of a range in one view, with the fresh frames it copies into. -/
def fillView (frames : List Nat) (protect : Nat) :
    List Nat → List Nat → Walk → Except Halt (Walk × List Nat)
  | [], fresh, w => .ok (w, fresh)
  | i :: is, fresh, w =>
    if mipReserveViewWants w.vad i then
      let index := i - ulong (w.vad.sectionOffset / pageSize)
      let page := w.vad.base + index * pageSize
      if w.vad.ownsFrames then do
        let copy := fresh.headD 0
        let w ← miCommitFrameInVad page copy protect true
          { w with phys := w.phys.copyFrame copy (frames.getD i 0) }
        fillView frames protect is fresh.tail w
      else do
        let w ← miCommitFrameInVad page (frames.getD i 0) protect false w
        fillView frames protect is fresh w
    else fillView frames protect is fresh w

/-- The walk over the views of the section; `own` is the one the commit came through. -/
def fillViews (frames : List Nat) (own : Nat × Nat) (protect : Nat) (range : List Nat) :
    List (Nat × Nat) → List Nat → Machine → Except Halt Machine
  | [], _, m => .ok m
  | v :: vs, fresh, m =>
    match m.space v.1, m.view v with
    | some space, some view => do
      let (w, fresh) ← fillView frames (if v = own then protect else view.allocationProtect)
        range fresh ⟨m.phys, space.table, view⟩
      fillViews frames own protect range vs fresh (m.putWalk v.1 space w)
    | _, _ => fillViews frames own protect range vs fresh m

def miCommitReserveSectionRange (grants : Grants) (m : Machine) (s : Nat) (body : Section)
    (p : Nat) (vad : Vad) (base size protect : Nat) : Except Halt (Machine × NtStatus) :=
  let first := ulong ((base - vad.base + vad.sectionOffset) / pageSize)
  let count := ulong (size / pageSize)
  if body.pageCount < ulong (first + count) then .error .sectionRange
  else if body.frames.length < first + count then .error .pastTheEnd
  else
    let needed := reserveNeeded m body s first count
    if needed = 0 then .ok (m, statusSuccess)
    else if !grants.fresh then .ok (m, statusNoMemory)
    else match allocateZeroed needed m.phys with
      | none => .ok (m, statusNoMemory)
      | some (fresh, phys) => do
        let range := List.range' first count
        let (frames, fresh) := fillLedger range body.frames fresh.reverse
        let m := { m with
          phys, sections := m.sections.set s (some { body with frames }) }
        let m ← fillViews frames (p, vad.base) protect range (m.viewsOf s) fresh m
        .ok (m, statusSuccess)

end Proskrnl.Mm
