import Proskrnl.Library.Outcome
import Mathlib.Logic.Function.Basic

/-!
# The page tables of the kernel half

The walk of `arch/x86_64/mmu.c` that maps one page. Each table on the way that is missing takes a frame of
its own, and the walk panics where it finds none, so a frame for the page alone is not enough.
-/

namespace Proskrnl.Mm

open Outcome

inductive KernelPanic
  | assertion
  | largePage
  | outOfPhysicalPages
  | frozenSlot
  | alreadyMapped
  | shadow
  | zeroBytes
  | corruptFreeList
  | nullPointer
  | badBlock
  | fault
  | spin
  deriving DecidableEq

inductive TableEntry (α : Type)
  | absent
  | large
  | table (t : α)

/-- The entries of the last level: which pages are mapped. -/
abbrev KernelPageTable := Nat → Bool

abbrev PageDirectory := Nat → TableEntry KernelPageTable

abbrev PageDirectories := Nat → TableEntry PageDirectory

abbrev Pml4 := Nat → TableEntry PageDirectories

/-- The index of an address in the table whose entries cover `2 ^ shift` bytes. -/
def tableIndex (shift va : Nat) : Nat := va / 2 ^ shift % 512

/-- The page tables of the kernel half and the frames on the free list. -/
structure Paging where
  pml4 : Pml4
  frozen : Bool
  frames : Nat

variable {α : Type}

def TableEntry.isPresent : TableEntry α → Bool
  | .absent => false
  | .large | .table _ => true

def miAllocatePage (frames : Nat) : Option Nat := if frames = 0 then none else some (frames - 1)

def mipTryEnsureTable (fresh : α) (entry : TableEntry α) (frames : Nat) :
    Except KernelPanic (Option (α × Nat)) :=
  match entry with
  | .large => .error .largePage
  | .table t => .ok (some (t, frames))
  | .absent => .ok ((miAllocatePage frames).map fun frames => (fresh, frames))

def miEnsureTable (fresh : α) (entry : TableEntry α) (frames : Nat) : Except KernelPanic (α × Nat) := do
  match ← mipTryEnsureTable fresh entry frames with
  | none => .error .outOfPhysicalPages
  | some found => .ok found

def miMapPage (k : Paging) (va : Nat) : Except KernelPanic Paging := do
  let pml4Entry := k.pml4 (tableIndex 39 va)
  if va % 4096 ≠ 0 then .error .assertion
  else if k.frozen ∧ pml4Entry.isPresent = false then .error .frozenSlot
  else
    let (pdpt, frames) ← miEnsureTable (fun _ => .absent) pml4Entry k.frames
    let (pd, frames) ← miEnsureTable (fun _ => .absent) (pdpt (tableIndex 30 va)) frames
    let (pt, frames) ← miEnsureTable (fun _ => false) (pd (tableIndex 21 va)) frames
    if pt (tableIndex 12 va) = true then .error .alreadyMapped
    else
      let pt := Function.update pt (tableIndex 12 va) true
      let pd := Function.update pd (tableIndex 21 va) (.table pt)
      let pdpt := Function.update pdpt (tableIndex 30 va) (.table pd)
      .ok { k with pml4 := Function.update k.pml4 (tableIndex 39 va) (.table pdpt), frames := frames }

def TableEntry.below (fresh : α) : TableEntry α → α
  | .absent | .large => fresh
  | .table t => t

def TableEntry.cost : TableEntry α → Nat
  | .absent => 1
  | .large | .table _ => 0

def TableEntry.IsLarge : TableEntry α → Prop
  | .large => True
  | .absent | .table _ => False

section
variable (k : Paging) (va : Nat)

def Paging.pdpt : PageDirectories := (k.pml4 (tableIndex 39 va)).below fun _ => .absent

def Paging.pd : PageDirectory := (k.pdpt va (tableIndex 30 va)).below fun _ => .absent

def Paging.pt : KernelPageTable := (k.pd va (tableIndex 21 va)).below fun _ => false

/-- The frames for the tables that are missing on the way to an address. -/
def Paging.missing : Nat :=
  (k.pml4 (tableIndex 39 va)).cost + (k.pdpt va (tableIndex 30 va)).cost + (k.pd va (tableIndex 21 va)).cost

/-- Nothing but missing tables is in the way of an address. -/
structure Paging.Open : Prop where
  slot : k.frozen = true → (k.pml4 (tableIndex 39 va)).isPresent = true
  pml4 : ¬ (k.pml4 (tableIndex 39 va)).IsLarge
  pdpt : ¬ (k.pdpt va (tableIndex 30 va)).IsLarge
  pd : ¬ (k.pd va (tableIndex 21 va)).IsLarge
  unmapped : k.pt va (tableIndex 12 va) = false

def Paging.place : Paging :=
  let pt := Function.update (k.pt va) (tableIndex 12 va) true
  let pd := Function.update (k.pd va) (tableIndex 21 va) (.table pt)
  let pdpt := Function.update (k.pdpt va) (tableIndex 30 va) (.table pd)
  { k with
    pml4 := Function.update k.pml4 (tableIndex 39 va) (.table pdpt)
    frames := k.frames - k.missing va }

end

theorem miEnsureTable_ok (fresh : α) {entry : TableEntry α} {frames : Nat} (hlarge : ¬ entry.IsLarge)
    (hframes : entry.cost ≤ frames) :
    miEnsureTable fresh entry frames = .ok (entry.below fresh, frames - entry.cost) := by
  cases entry with
  | large => exact absurd trivial hlarge
  | table t => rfl
  | absent =>
    have hne : frames ≠ 0 := by
      simp only [TableEntry.cost] at hframes
      omega
    simp only [miEnsureTable, mipTryEnsureTable, miAllocatePage, if_neg hne]
    rfl

theorem miMapPage_ok {k : Paging} {va : Nat} (haligned : va % 4096 = 0) (hopen : k.Open va)
    (hframes : k.missing va ≤ k.frames) : miMapPage k va = .ok (k.place va) := by
  have hmissing : k.missing va = (k.pml4 (tableIndex 39 va)).cost + (k.pdpt va (tableIndex 30 va)).cost +
      (k.pd va (tableIndex 21 va)).cost := rfl
  have hslot : ¬ (k.frozen = true ∧ (k.pml4 (tableIndex 39 va)).isPresent = false) := by
    rintro ⟨hfrozen, habsent⟩
    rw [hopen.slot hfrozen] at habsent
    cases habsent
  have hfirst := miEnsureTable_ok (fun _ => .absent) hopen.pml4
    (show _ ≤ k.frames by omega)
  have hsecond := miEnsureTable_ok (fun _ => .absent) hopen.pdpt
    (show _ ≤ k.frames - (k.pml4 (tableIndex 39 va)).cost by omega)
  have hthird := miEnsureTable_ok (fun _ => false) hopen.pd
    (show _ ≤ k.frames - (k.pml4 (tableIndex 39 va)).cost - (k.pdpt va (tableIndex 30 va)).cost by omega)
  have hunmapped : ¬ k.pt va (tableIndex 12 va) = true := by
    rw [hopen.unmapped]
    exact Bool.false_ne_true
  have hrest : k.frames - k.missing va = k.frames - (k.pml4 (tableIndex 39 va)).cost -
      (k.pdpt va (tableIndex 30 va)).cost - (k.pd va (tableIndex 21 va)).cost := by omega
  rw [miMapPage, if_neg (by simpa using haligned), if_neg hslot, hfirst]
  change (miEnsureTable _ (k.pdpt va (tableIndex 30 va)) _ >>= _) = _
  rw [hsecond]
  change (miEnsureTable _ (k.pd va (tableIndex 21 va)) _ >>= _) = _
  rw [hthird]
  change (if k.pt va (tableIndex 12 va) = true then _ else _) = _
  rw [if_neg hunmapped, Paging.place, hrest]
  rfl

/-- Pages are mapped one after the other, each after a frame was taken for it. -/
def Paging.takeFrame (k : Paging) : Paging := { k with frames := k.frames - 1 }

/-- There are frames for each of the pages and for the tables on the way, and nothing else is in the
way. -/
def Paging.Room : Paging → List Nat → Prop
  | _, [] => True
  | k, va :: rest =>
    k.frames ≠ 0 ∧ k.takeFrame.Open va ∧ k.takeFrame.missing va ≤ k.takeFrame.frames ∧
      (k.takeFrame.place va).Room rest

def Paging.placeAll (k : Paging) (pages : List Nat) : Paging :=
  pages.foldl (fun k va => k.takeFrame.place va) k

theorem Paging.placeAll_cons (k : Paging) (va : Nat) (rest : List Nat) :
    k.placeAll (va :: rest) = (k.takeFrame.place va).placeAll rest := rfl

end Proskrnl.Mm
