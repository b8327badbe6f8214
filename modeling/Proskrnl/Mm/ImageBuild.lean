import Proskrnl.Mm.ImageMaster

/-!
# What a build of an image master does

The relocation pass reads its directory inside the file, and no fixup meets a page without a frame. A
build either links a master that holds the copy of the image, or leaves nothing of what it allocated; it
is stopped only by a relocation block whose entries are not aligned.
-/

namespace Proskrnl.Mm.Pe

open Traps Outcome List
open Intervals (Laid)

variable {live : Nat → Prop} {l l' : Loader} {master master' : Master} {n delta blockRva entry : Nat}
  {image : ImageInfo} {raw data : List UInt8} {copy : ImageCopy} {covered : Nat → Bool}

/-! ## Fixups -/

variable {rva width : Nat}

theorem mipMasterAddDelta_some (delta : Nat)
    (h : ∀ i < width, copy.committed ((rva + i) / pageSize) = true) :
    ∃ copy', mipMasterAddDelta copy rva width delta = some copy' ∧ copy'.committed = copy.committed := by
  rw [mipMasterAddDelta, if_neg]
  · exact ⟨_, rfl, rfl⟩
  · simp only [List.any_eq_true, mem_range, not_exists, not_and]
    intro i hi
    simp [h i hi]

theorem between_pages {i : Nat} (hwidth : width ≤ 8) (hi : i < width) :
    (rva + i) / pageSize = rva / pageSize ∨ (rva + i) / pageSize = (rva + width - 1) / pageSize := by
  have hsize : pageSize = 4096 := rfl
  rw [hsize]
  omega

def fixup (image : ImageInfo) (delta rva width : Nat) (copy : ImageCopy) :
    Except BuildFailure ImageCopy :=
  if image.sizeOfImage < rva + width ∨ !copy.committed (rva / pageSize) ∨
      !copy.committed ((rva + width - 1) / pageSize) then
    .error (.status statusInvalidImageFormat)
  else match mipMasterAddDelta copy rva width delta with
    | some copy => .ok copy
    | none => .error .halt

def FixupFits (image : ImageInfo) (covered : Nat → Bool) (rva width : Nat) : Prop :=
  rva + width ≤ image.sizeOfImage ∧ covered (rva / pageSize) = true ∧
    covered ((rva + width - 1) / pageSize) = true

/-- An entry of a relocation block that is no fixup, or one inside the image in pages that are covered. -/
def EntryFits (image : ImageInfo) (covered : Nat → Bool) (blockRva entry : Nat) : Prop :=
  entry / 0x1000 = 0 ∨
    (entry / 0x1000 = 3 ∧ FixupFits image covered (blockRva + entry % 0x1000) 4) ∨
    (entry / 0x1000 = 10 ∧ FixupFits image covered (blockRva + entry % 0x1000) 8)

theorem fixup_cases (image : ImageInfo) (delta rva : Nat) (hwidth : width ≤ 8) (copy : ImageCopy) :
    (FixupFits image copy.committed rva width ∧
      ∃ copy', fixup image delta rva width copy = .ok copy' ∧ copy'.committed = copy.committed) ∨
    (¬ FixupFits image copy.committed rva width ∧
      fixup image delta rva width copy = .error (.status statusInvalidImageFormat)) := by
  rw [fixup]
  by_cases hbad : image.sizeOfImage < rva + width ∨ (!copy.committed (rva / pageSize)) = true ∨
      (!copy.committed ((rva + width - 1) / pageSize)) = true
  · refine .inr ⟨?_, if_pos hbad⟩
    rintro ⟨hin, hfirst, hlast⟩
    rw [hfirst, hlast] at hbad
    simp only [Bool.not_true, Bool.false_eq_true, or_false] at hbad
    omega
  · rw [if_neg hbad]
    simp only [not_or, Bool.not_eq_true', Bool.not_eq_false, not_lt] at hbad
    obtain ⟨hin, hfirst, hlast⟩ := hbad
    have hcover : ∀ i < width, copy.committed ((rva + i) / pageSize) = true := by
      intro i hi
      rcases between_pages hwidth hi with h | h
      · rw [h, hfirst]
      · rw [h, hlast]
    obtain ⟨copy', hadd, hcommitted⟩ := mipMasterAddDelta_some delta hcover
    rw [hadd]
    exact .inl ⟨⟨hin, hfirst, hlast⟩, copy', rfl, hcommitted⟩

theorem relocateEntry_cases (image : ImageInfo) (delta blockRva entry : Nat) (copy : ImageCopy) :
    (EntryFits image copy.committed blockRva entry ∧
      ∃ copy', relocateEntry image delta blockRva entry copy = .ok copy' ∧
        copy'.committed = copy.committed) ∨
    (¬ EntryFits image copy.committed blockRva entry ∧
      relocateEntry image delta blockRva entry copy = .error (.status statusInvalidImageFormat)) := by
  by_cases hpad : entry / 0x1000 = 0
  · exact .inl ⟨.inl hpad, copy, if_pos hpad, rfl⟩
  by_cases hlow : entry / 0x1000 = 3
  · have hfits : EntryFits image copy.committed blockRva entry ↔
        FixupFits image copy.committed (blockRva + entry % 0x1000) 4 := by simp [EntryFits, hlow]
    have heq : relocateEntry image delta blockRva entry copy =
        fixup image delta (blockRva + entry % 0x1000) 4 copy := by
      rw [relocateEntry, hlow]
      rfl
    rw [hfits, heq]
    exact fixup_cases image delta _ (by decide) copy
  by_cases hwide : entry / 0x1000 = 10
  · have hfits : EntryFits image copy.committed blockRva entry ↔
        FixupFits image copy.committed (blockRva + entry % 0x1000) 8 := by simp [EntryFits, hwide]
    have heq : relocateEntry image delta blockRva entry copy =
        fixup image delta (blockRva + entry % 0x1000) 8 copy := by
      rw [relocateEntry, hwide]
      rfl
    rw [hfits, heq]
    exact fixup_cases image delta _ (Nat.le_refl 8) copy
  refine .inr ⟨by simp [EntryFits, hpad, hlow, hwide], ?_⟩
  rw [relocateEntry, if_neg hpad]
  split
  · rfl
  · rename_i width hwidth
    split at hwidth
    · contradiction
    · contradiction
    · cases hwidth

/-! ## Blocks -/

/-- The pass over the entries of a block: it is stopped at the first load where they are not aligned, and
refuses the image where an entry does not fit. -/
theorem relocateEntries_ends (image : ImageInfo) (raw : List UInt8) (delta blockRva : Nat)
    {m offset : Nat} (hcovered : master.copy.committed = covered)
    (hin : offset + 2 * m ≤ raw.length) :
    Ends (fun e => (e = .misaligned ∧ m ≠ 0 ∧ offset % 2 ≠ 0) ∨ ((m ≠ 0 → offset % 2 = 0) ∧
        (¬ ∀ i < m, EntryFits image covered blockRva (Bytes.field raw (offset + 2 * i) 2)) ∧
        ∃ s, e = .refused s))
      (relocateEntries image raw delta blockRva m offset master) fun master' =>
        (m ≠ 0 → offset % 2 = 0) ∧
        (∀ i < m, EntryFits image covered blockRva (Bytes.field raw (offset + 2 * i) 2)) ∧
        master' = { master with byte := master'.byte } ∧
        Mm.relocateEntries image raw delta blockRva m offset master.copy = .ok master'.copy := by
  induction m generalizing offset master with
  | zero => exact Ends.ok ⟨fun h => absurd rfl h, nofun, rfl, rfl⟩
  | succ m ih =>
    by_cases heven : offset % 2 = 0
    · rw [relocateEntries, member_eq heven (by omega), Mm.relocateEntries]
      simp only [bind, Except.bind, Nat.add_zero]
      have hfirst (i : Nat) : offset + 2 + 2 * i = offset + 2 * (i + 1) := by omega
      rcases relocateEntry_cases image delta blockRva (Bytes.field raw offset 2) master.copy with
        ⟨hfits, copy', hentry, hcommitted⟩ | ⟨hfits, hentry⟩
      · rw [hentry]
        have hcopy : ({ master with byte := copy'.byte } : Master).copy = copy' := by
          rw [Master.copy, ImageCopy.mk.injEq]
          exact ⟨hcommitted.symm, rfl⟩
        have hends := @ih { master with byte := copy'.byte } (offset + 2)
          (by rw [hcopy, hcommitted, hcovered]) (by omega)
        simp only [hfirst, hcopy] at hends
        rw [hcovered] at hfits
        have hall : (∀ i < m + 1, EntryFits image covered blockRva (Bytes.field raw (offset + 2 * i) 2)) ↔
            ∀ i < m, EntryFits image covered blockRva (Bytes.field raw (offset + 2 * (i + 1)) 2) := by
          refine ⟨fun h i hi => h (i + 1) (by omega), fun h i hi => ?_⟩
          cases i with
          | zero => exact hfits
          | succ i => exact h i (by omega)
        refine hends.imp ?_ ?_
        · rintro e (⟨rfl, hne, hodd⟩ | ⟨-, hbad, s, rfl⟩)
          · exact absurd heven (by omega)
          · exact .inr ⟨fun _ => heven, mt hall.mp hbad, s, rfl⟩
        · rintro master' ⟨-, hrest, hgrows, hpure⟩
          exact ⟨fun _ => heven, hall.mpr hrest, hgrows, hpure⟩
      · rw [hentry]
        refine Ends.error (.inr ⟨fun _ => heven, fun h => hfits ?_, _, rfl⟩)
        rw [hcovered]
        exact h 0 (Nat.succ_pos _)
    · rw [relocateEntries, member_misaligned heven]
      exact Ends.error (.inl ⟨rfl, Nat.succ_ne_zero _, heven⟩)

structure IsBlock (raw : List UInt8) (end_ cursor : Nat) : Prop where
  header : cursor + 8 ≤ end_
  size : 8 ≤ Bytes.field raw (cursor + 4) 4
  inside : cursor + Bytes.field raw (cursor + 4) 4 ≤ end_

def blockEntries (raw : List UInt8) (cursor : Nat) : Nat := (Bytes.field raw (cursor + 4) 4 - 8) / 2

def BlockFits (image : ImageInfo) (covered : Nat → Bool) (raw : List UInt8) (cursor : Nat) : Prop :=
  ∀ i < blockEntries raw cursor,
    EntryFits image covered (Bytes.field raw cursor 4) (Bytes.field raw (cursor + 8 + 2 * i) 2)

/-- From a place of the directory on, the pass comes to a block with entries that are not aligned. -/
inductive OddBlock (image : ImageInfo) (covered : Nat → Bool) (raw : List UInt8) (end_ : Nat) : Nat → Prop
  | here {cursor : Nat} : IsBlock raw end_ cursor → blockEntries raw cursor ≠ 0 → (cursor + 8) % 2 ≠ 0 →
    OddBlock image covered raw end_ cursor
  | later {cursor : Nat} : IsBlock raw end_ cursor → BlockFits image covered raw cursor →
    OddBlock image covered raw end_ (cursor + Bytes.field raw (cursor + 4) 4) →
    OddBlock image covered raw end_ cursor

/-- The loop over the blocks is the pass over the copy, as long as that has rounds enough. -/
theorem relocateBlocks_ends (image : ImageInfo) (delta : Nat) {end_ cursor : Nat} (fuel : Nat)
    (hcovered : master.copy.committed = covered)
    (hin : end_ ≤ raw.length) (hfuel : end_ < cursor + 8 + fuel) :
    Ends (fun e => (e = .misaligned ∧ OddBlock image covered raw end_ cursor) ∨
        (¬ OddBlock image covered raw end_ cursor ∧ ∃ s, e = .refused s))
      (relocateBlocks image raw delta end_ cursor master) fun master' =>
        ¬ OddBlock image covered raw end_ cursor ∧ master' = { master with byte := master'.byte } ∧
        Mm.relocateBlocks image raw delta end_ fuel cursor master.copy = .ok master'.copy := by
  have hnone {c : Nat} (h : ¬ IsBlock raw end_ c) : ¬ OddBlock image covered raw end_ c := by
    rintro (⟨hblock, -, -⟩ | ⟨hblock, -, -⟩)
    · exact h hblock
    · exact h hblock
  induction fuel generalizing cursor master with
  | zero =>
    rw [relocateBlocks, if_pos (by omega)]
    exact Ends.ok ⟨hnone fun h => by have := h.header; omega, rfl, rfl⟩
  | succ fuel ih =>
    rw [relocateBlocks, Mm.relocateBlocks]
    refine Ends.ite (fun hend => Ends.ok ⟨hnone fun h => by have := h.header; omega, rfl, if_pos hend⟩)
      fun hheader => ?_
    rw [if_neg hheader, copiedField_eq (by omega), copiedField_eq (by omega)]
    simp only [bind, Except.bind]
    refine Ends.ite (fun hend => Ends.ok ⟨hnone fun h => ?_, rfl, if_pos hend⟩) fun hinside => ?_
    · have := h.size
      have := h.inside
      omega
    rw [if_neg hinside]
    have hblock : IsBlock raw end_ cursor := ⟨by omega, by omega, by omega⟩
    have hentries : cursor + 8 + 2 * blockEntries raw cursor ≤ raw.length := by
      rw [blockEntries]
      omega
    have hends := relocateEntries_ends image raw delta (Bytes.field raw cursor 4) hcovered hentries
    refine Ends.bind (hends.imp ?_ fun _ h => h) ?_
    · rintro e (⟨rfl, hne, hodd⟩ | ⟨heven, hbad, s, rfl⟩)
      · exact .inl ⟨rfl, .here hblock hne hodd⟩
      · refine .inr ⟨?_, s, rfl⟩
        rintro (⟨-, hne, hodd⟩ | ⟨-, hfits, -⟩)
        · exact hodd (heven hne)
        · exact hbad hfits
    · rintro master' ⟨heven, hfits, hgrows, hpure⟩
      have hcovered' : master'.copy.committed = covered := by
        rw [hgrows]
        exact hcovered
      have hiff : OddBlock image covered raw end_ cursor ↔
          OddBlock image covered raw end_ (cursor + Bytes.field raw (cursor + 4) 4) := by
        refine ⟨?_, .later hblock hfits⟩
        rintro (⟨-, hne, hodd⟩ | ⟨-, -, hlater⟩)
        · exact absurd (heven hne) hodd
        · exact hlater
      refine (ih hcovered' (by omega)).imp ?_ ?_
      · rintro e h
        rwa [hiff]
      · rintro master'' ⟨hodd, hgrows', hpure'⟩
        refine ⟨mt hiff.mp hodd, hgrows'.trans ?_, ?_⟩
        · rw [hgrows]
        · rw [blockEntries] at hpure
          rw [hpure]
          exact hpure'

/-! ## Relocation -/

theorem mipRvaToFileOffset_inside (hfits : image.Fits raw.length) {length offset : Nat}
    (hlength : length ≠ 0) (hin : rva + length ≤ image.sizeOfImage)
    (h : mipRvaToFileOffset image rva length = some offset) : offset + length ≤ raw.length := by
  rw [mipRvaToFileOffset, Option.map_eq_some_iff] at h
  obtain ⟨seg, hseg, rfl⟩ := h
  have hmem := mem_of_find?_eq_some hseg
  have hcond := find?_some hseg
  simp only [decide_eq_true_eq] at hcond
  obtain ⟨hlow, hhigh⟩ := hcond
  have hrange := hfits.ranges (segmentRange seg) (.tail _ (List.mem_map_of_mem hmem))
  have hinside := hrange.inside
  have hfilled := hrange.filled
  have hraw := hrange.raw
  have hsmall := hfits.small
  simp only [ImageRange.limit, segmentRange] at hinside hfilled hraw
  rw [ulong_of_lt (by omega), ulong_of_lt (by omega)] at hhigh
  have := hraw (by omega)
  omega

/-- Where the relocation pass over an image starts and ends in the file. -/
def relocDirectoryAt (image : ImageInfo) (offset : Nat) : Prop :=
  image.relocRva ≠ 0 ∧ image.relocSize ≠ 0 ∧
    mipRvaToFileOffset image image.relocRva image.relocSize = some offset

/-- The relocation pass comes to no block whose entries are not aligned. -/
def BlocksAligned (image : ImageInfo) (covered : Nat → Bool) (raw : List UInt8) : Prop :=
  ∀ offset, relocDirectoryAt image offset →
    ¬ OddBlock image covered raw (offset + image.relocSize) offset

theorem mipRelocateImage_ends (delta : Nat) (hfits : image.Fits raw.length)
    (hcovered : master.copy.committed = covered) :
    Ends (fun e => (e = .misaligned ∧ ¬ BlocksAligned image covered raw) ∨
        (BlocksAligned image covered raw ∧ ∃ s, e = .refused s))
      (mipRelocateImage image raw delta master) fun master' =>
        BlocksAligned image covered raw ∧ master' = { master with byte := master'.byte } ∧
        Mm.mipRelocateImage image raw delta master.copy = .ok master'.copy := by
  rw [mipRelocateImage, Mm.mipRelocateImage]
  refine Ends.ite (fun hnone => Ends.ok ⟨?_, rfl, if_pos hnone⟩) fun hsome => ?_
  · rintro offset ⟨hrva, hsize, -⟩
    exact absurd hnone (not_or.mpr ⟨hrva, hsize⟩)
  rw [if_neg hsome]
  obtain ⟨hrva, hsize⟩ := not_or.mp hsome
  cases hoffset : mipRvaToFileOffset image image.relocRva image.relocSize with
  | none =>
    refine Ends.error (.inr ⟨?_, _, rfl⟩)
    rintro offset ⟨-, -, h⟩
    rw [hoffset] at h
    cases h
  | some offset =>
    have hin := mipRvaToFileOffset_inside hfits hsize hfits.reloc hoffset
    have hiff : BlocksAligned image covered raw ↔
        ¬ OddBlock image covered raw (offset + image.relocSize) offset := by
      refine ⟨fun h => h offset ⟨hrva, hsize, hoffset⟩, ?_⟩
      rintro h offset' ⟨-, -, h'⟩
      rw [hoffset] at h'
      cases h'
      exact h
    have hrounds : offset + image.relocSize < offset + 8 + image.relocSize := by omega
    have hends := relocateBlocks_ends image delta image.relocSize hcovered hin hrounds
    rw [hiff, not_not]
    exact hends

theorem relocateMaster_ends (hfits : image.Fits raw.length) (hcovered : master.copy.committed = covered)
    (hheader : ∀ a < image.sizeOfHeaders, covered (a / pageSize) = true) :
    Ends (fun e => (e = .misaligned ∧ master.base ≠ image.preferredBase ∧
          ¬ BlocksAligned image covered raw) ∨
        ((master.base ≠ image.preferredBase → BlocksAligned image covered raw) ∧ ∃ s, e = .refused s))
      (relocateMaster image raw master) fun master' =>
        (master.base ≠ image.preferredBase → BlocksAligned image covered raw) ∧
        master' = { master with byte := master'.byte } ∧
        relocateImage image raw master.base master.copy = .ok master'.copy := by
  rw [relocateMaster, relocateImage]
  refine Ends.ite (fun hbase => Ends.ok ⟨fun h => absurd hbase h, rfl, if_pos hbase⟩) fun hbase => ?_
  rw [if_neg hbase]
  refine Ends.bind ((mipRelocateImage_ends _ hfits hcovered).imp ?_ fun _ h => h) ?_
  · rintro e (⟨rfl, hblocks⟩ | ⟨hblocks, hrefused⟩)
    · exact .inl ⟨rfl, hbase, hblocks⟩
    · exact .inr ⟨fun _ => hblocks, hrefused⟩
  · rintro master' ⟨hblocks, hgrows, hpure⟩
    have hcovered' : master'.copy.committed = covered := by
      rw [hgrows]
      exact hcovered
    have hfield : ∀ i < image.baseField.2,
        master'.copy.committed ((image.baseField.1 + i) / pageSize) = true := by
      intro i hi
      rw [hcovered']
      apply hheader
      have := hfits.header
      rw [ImageInfo.baseField] at hi ⊢
      split at hi
      · rename_i h32
        rw [if_pos h32]
        dsimp only at hi ⊢
        omega
      · rename_i h64
        rw [if_neg h64]
        dsimp only at hi ⊢
        omega
    obtain ⟨copy', hadd, hcommitted⟩ := mipMasterAddDelta_some
      (uint64 (master.base + 2 ^ 64 - image.preferredBase)) hfield
    simp only [bind, Except.bind]
    rw [hpure, hadd]
    dsimp only
    rw [hadd]
    refine Ends.ok ⟨fun _ => hblocks, ?_, ?_⟩
    · rw [hgrows]
    · refine congrArg Except.ok ?_
      rw [Master.copy, ImageCopy.mk.injEq]
      exact ⟨hcommitted, rfl⟩

/-! ## The copy of the image -/

def imagePages (image : ImageInfo) (fileSize : Nat) : List Nat :=
  (image.ranges fileSize).flatMap ImageRange.pageList

def covers (image : ImageInfo) (fileSize page : Nat) : Bool := decide (page ∈ imagePages image fileSize)

def imageCopy (image : ImageInfo) (raw : List UInt8) (base : Nat) : Except BuildFailure ImageCopy := do
  let copy ← commitImage image raw raw.length
  relocateImage image raw base copy

theorem covers_header (hfits : image.Fits raw.length) {a : Nat} (ha : a < image.sizeOfHeaders) :
    covers image raw.length (a / pageSize) = true := by
  have hsize : pageSize = 4096 := rfl
  have hheaders := hfits.headers
  have hsmall := hfits.small
  have hfirst := hfits.ranges _ mem_cons_self
  have hfilled := hfirst.filled
  simp only at hfilled
  refine decide_eq_true (mem_flatMap.mpr ⟨_, mem_cons_self, mem_pageList.mpr ⟨by simp, ?_⟩⟩)
  dsimp only
  rw [Nat.min_eq_left hheaders] at hfilled ⊢
  rw [hsize] at hfilled ⊢
  omega

structure Master.Fresh (master : Master) (image : ImageInfo) : Prop where
  pageCount : master.pageCount = ulong (image.sizeOfImage / pageSize)
  frames : master.frames = fun _ => 0
  byte : master.byte = fun _ => 0

theorem fillMaster_ends (h : Building live n master l) (hfits : image.Fits raw.length)
    (hfresh : master.Fresh image) :
    Ends (fun e => e = .misaligned ∧ master.base ≠ image.preferredBase ∧
        ¬ BlocksAligned image (covers image raw.length) raw)
      (fillMaster image raw master l) fun r =>
        Building live n r.2.1 r.2.2 ∧ master.Grows r.2.1 ∧ r.2.2.list = l.list ∧
        (r.1 = .ok () → imageCopy image raw master.base = .ok r.2.1.copy) ∧
        (Plenty (imagePages image raw.length).length l → master.base ≠ image.preferredBase →
          BlocksAligned image (covers image raw.length) raw) := by
  have hpages : master.pageCount * pageSize = image.sizeOfImage := by
    have hsize : pageSize = 4096 := rfl
    have hwhole := hfits.whole
    have hsmall := hfits.small
    rw [hfresh.pageCount, hsize, ulong_of_lt (by omega)]
    rw [hsize] at hwhole
    omega
  have hclean : master.Clean := fun rva _ => congrFun hfresh.byte rva
  have hfront : InFront master (image.ranges raw.length) :=
    fun q hq => absurd (congrFun hfresh.frames q) hq
  have hempty : master.copy = {} := by
    rw [Master.copy, hfresh.frames, hfresh.byte]
    rfl
  have hends := commitRanges_ends h hclean hfits.laid (hpages ▸ hfits.ranges) hfront
  refine Ends.bind (hends.imp (fun _ h => h.elim) fun _ h => h) ?_
  rintro ⟨status, master', l'⟩ ⟨hcommitted, hcopy⟩
  cases status with
  | error status =>
    refine Ends.ok ⟨hcommitted.building, hcommitted.grows, hcommitted.list, by simp, fun hplenty => ?_⟩
    cases (hcommitted.plenty 0 hplenty).1
  | ok u =>
    have hcopy := hcopy rfl
    have hgrows : master.Grows master' := hcommitted.grows
    have hbase : master'.base = master.base := by rw [hgrows]
    have hcommit : commitImage image raw raw.length = .ok master'.copy := by
      rw [commitImage, ← hfresh.pageCount, ← hempty, hcopy]
    have hcovered : master'.copy.committed = covers image raw.length := by
      funext page
      refine decide_eq_decide.mpr ((hcommitted.frames rfl page).trans (or_iff_right ?_))
      exact not_not.mpr (congrFun hfresh.frames page)
    have hrelocate := relocateMaster_ends hfits hcovered fun a ha => covers_header hfits ha
    dsimp only
    cases hresult : relocateMaster image raw master' with
    | ok master'' =>
      obtain ⟨hblocks, hgrows', hpure⟩ := hrelocate.of_ok hresult
      rw [hbase] at hblocks hpure
      refine Ends.ok ⟨?_, hgrows.trans ?_, hcommitted.list, fun _ => ?_, fun _ => hblocks⟩
      · rw [hgrows']
        exact hcommitted.building.with_byte _
      · rw [hgrows']
        rfl
      · rw [imageCopy, hcommit]
        exact hpure
    | error e =>
      have hstop := hrelocate.of_error hresult
      rw [hbase] at hstop
      rcases hstop with ⟨rfl, hne, hblocks⟩ | ⟨hblocks, s, rfl⟩
      · exact Ends.error ⟨rfl, hne, hblocks⟩
      · exact Ends.ok ⟨hcommitted.building, hgrows, hcommitted.list, by simp, fun _ => hblocks⟩

/-! ## The build -/

/-- The block of the raw bytes beside what else is live; `0` is none. -/
def WithTemp (live : Nat → Prop) (temp a : Nat) : Prop := live a ∨ (a = temp ∧ temp ≠ 0)

def RawSource.bytes (data : List UInt8) : RawSource → Option (List UInt8)
  | .snapshot => some data
  | .cache file _ =>
    if file.fileSize < data.length then none else some (Cache.miCacheRead file 0 data.length)

theorem RawSource.length_bytes {source : RawSource} (h : source.bytes data = some raw) :
    raw.length = data.length := by
  cases source with
  | snapshot =>
    cases h
    rfl
  | cache cache resident =>
    rw [RawSource.bytes] at h
    split at h
    · cases h
    · cases h
      rw [Cache.miCacheRead, length_map, length_range]

structure Plentiful (k : Nat) (l : Loader) : Prop where
  pool : ∃ rest, l.pool = true :: true :: true :: rest
  pages : Plenty k l

theorem miAllocatePool_spec (h : l.Holds live) :
    Allocates l live l.miAllocatePool ∧ l.miAllocatePool.2.pages = l.pages ∧
      ∀ rest, l.pool = true :: rest → l.miAllocatePool.1 ≠ none ∧ l.miAllocatePool.2.pool = rest := by
  refine ⟨miAllocatePool_allocates h, ?_, fun rest hrest => ?_⟩
  · rw [Loader.miAllocatePool]
    split <;> rfl
  · rw [Loader.miAllocatePool, hrest]
    exact ⟨by simp, rfl⟩

theorem miAcquireImageRawBytes_ends (h : l.Holds live) (data : List UInt8) (source : RawSource) :
    Ends (fun _ => False) (miAcquireImageRawBytes data l source) fun r =>
      l.Same r.2 ∧ r.2.pages = l.pages ∧
      match r.1 with
      | .error _ => r.2.Holds live ∧ (source.bytes data = none ∨ ¬ ∃ rest, l.pool = true :: rest)
      | .ok (raw, temp) => source.bytes data = some raw ∧ ¬ live temp ∧ r.2.Holds (WithTemp live temp) ∧
          ∀ rest, l.pool = true :: true :: true :: rest → ∃ rest, r.2.pool = true :: true :: rest := by
  have hzero : ¬ live 0 := fun h0 => absurd (h.bound h0).1 (Nat.lt_irrefl 0)
  cases source with
  | snapshot =>
    refine Ends.ok ⟨⟨rfl, rfl⟩, rfl, rfl, hzero, h.congr fun a => or_iff_left ?_, fun rest hpool => ⟨_, hpool⟩⟩
    rintro ⟨-, hne⟩
    exact hne rfl
  | cache cache resident =>
    rw [miAcquireImageRawBytes, RawSource.bytes]
    refine Ends.ite (fun hshort => Ends.ok ⟨⟨rfl, rfl⟩, rfl, h, .inl (if_pos hshort)⟩) fun hlong => ?_
    rw [if_neg hlong]
    obtain ⟨halloc, hpages, hpool⟩ := miAllocatePool_spec h
    generalize l.miAllocatePool = answer at halloc hpages hpool ⊢
    obtain ⟨_ | temp, l'⟩ := answer
    · obtain ⟨hholds, hsame⟩ := halloc
      refine Ends.ok ⟨hsame, hpages, hholds, .inr ?_⟩
      rintro ⟨rest, hrest⟩
      exact absurd rfl (hpool rest hrest).1
    · obtain ⟨hne, hfresh, hholds, hsame⟩ := halloc
      have hcovers : data.length ≤ cache.pageCount * Cache.pageSize :=
        ((Nat.le_of_not_lt hlong).trans (Cache.le_pagesOf _)).trans
          (Nat.mul_le_mul_right _ resident.pages)
      dsimp only
      rw [assert_eq hcovers]
      refine Ends.ok ⟨hsame, hpages, rfl, hfresh, hholds.congr fun a => ?_, fun rest hrest => ⟨rest, ?_⟩⟩
      · exact or_congr_right (and_iff_left hne)
      · exact (hpool _ hrest).2

theorem allocateMaster_spec (h : l.Holds live) (image : ImageInfo) (identity base : Nat) :
    ∃ r, allocateMaster image identity base l = .ok r ∧ l.Same r.2 ∧ r.2.pages = l.pages ∧
      match r.1 with
      | none => r.2.Holds live ∧ ¬ ∃ rest, l.pool = true :: true :: rest
      | some master => Building live l.masterFrames master r.2 ∧ master.Fresh image ∧
          master.identity = identity ∧ master.base = base := by
  rw [allocateMaster]
  obtain ⟨halloc, hpages, hpool⟩ := miAllocatePool_spec h
  generalize l.miAllocatePool = answer at halloc hpages hpool ⊢
  obtain ⟨_ | record, l1⟩ := answer
  · obtain ⟨hholds, hsame⟩ := halloc
    refine ⟨_, rfl, hsame, hpages, hholds, ?_⟩
    rintro ⟨rest, hrest⟩
    exact absurd rfl (hpool _ hrest).1
  · obtain ⟨hne, hrecord, hholds, hsame⟩ := halloc
    dsimp only at hpages hpool ⊢
    obtain ⟨halloc, hpages1, hpool1⟩ := miAllocatePool_spec hholds
    generalize l1.miAllocatePool = answer at halloc hpages1 hpool1 ⊢
    obtain ⟨_ | table, l2⟩ := answer
    · obtain ⟨hholds2, hsame2⟩ := halloc
      obtain ⟨l3, hfree, hsame3, hpages3, hholds3⟩ := hholds2.free (.inr rfl)
      dsimp only at hpages1 ⊢
      rw [hfree]
      refine ⟨_, rfl, ⟨?_, ?_⟩, hpages3.trans (hpages1.trans hpages), hholds3.congr fun a => ?_, ?_⟩
      · exact hsame3.1.trans (hsame2.1.trans hsame.1)
      · exact hsame3.2.trans (hsame2.2.trans hsame.2)
      · refine ⟨fun ha => ⟨.inl ha, fun heq => hrecord (heq ▸ ha)⟩, ?_⟩
        rintro ⟨ha | rfl, hnot⟩
        · exact ha
        · exact absurd rfl hnot
      · rintro ⟨rest, hrest⟩
        exact absurd rfl (hpool1 _ (hpool _ hrest).2).1
    · obtain ⟨-, htable, hholds2, hsame2⟩ := halloc
      obtain ⟨htable, hdistinct⟩ := not_or.mp htable
      refine ⟨_, rfl, ⟨hsame2.1.trans hsame.1, hsame2.2.trans hsame.2⟩, hpages1.trans hpages,
        ⟨hholds2.congr fun a => ?_, ?_, ?_⟩, ⟨rfl, rfl, rfl⟩, rfl, rfl⟩
      · rw [or_assoc]
        refine or_congr_right (or_congr_right (or_iff_left ?_))
        rintro ⟨page, rfl, hne⟩
        exact hne rfl
      · exact ⟨hrecord, ⟨htable, hdistinct⟩, fun _ h => absurd rfl h, fun _ _ h => absurd rfl h,
          fun _ h => absurd rfl h⟩
      · refine (hsame2.2.trans hsame.2).trans (Nat.left_eq_add.mpr ?_)
        exact countP_eq_zero.mpr (by simp)

/-- A build: a master that is linked and holds the copy of the image, beside what was live, or nothing
beside it. -/
def Built (live : Nat → Prop) (l : Loader) (image : ImageInfo) (source : RawSource) (data : List UInt8)
    (identity base : Nat) : Except NtStatus Master × Loader → Prop
  | (.error _, l') => l'.Holds live ∧ l.Same l'
  | (.ok master, l') => Building live l.masterFrames master l' ∧ l'.list = (l.link master).list ∧
      master.identity = identity ∧ master.base = base ∧
      ∃ raw, source.bytes data = some raw ∧ imageCopy image raw base = .ok master.copy

theorem miReleaseImageRawBytes_spec {temp : Nat} (hfresh : ¬ live temp)
    (h : l.Holds (WithTemp live temp)) :
    ∃ l', miReleaseImageRawBytes temp l = .ok l' ∧ l.Same l' ∧ l'.Holds live := by
  rw [miReleaseImageRawBytes]
  by_cases htemp : temp = 0
  · rw [if_neg (not_not.mpr htemp)]
    refine ⟨l, rfl, ⟨rfl, rfl⟩, h.congr fun a => (or_iff_left ?_).symm⟩
    rintro ⟨-, hne⟩
    exact hne htemp
  · rw [if_pos htemp]
    obtain ⟨l', hfree, hsame, -, hholds⟩ := h.free (.inr ⟨rfl, htemp⟩)
    refine ⟨l', hfree, hsame, hholds.congr fun a => ⟨fun ha => ⟨.inl ha, ?_⟩, ?_⟩⟩
    · exact fun heq => hfresh (heq ▸ ha)
    · rintro ⟨ha | ⟨rfl, -⟩, hnot⟩
      · exact ha
      · exact absurd rfl hnot

theorem Building.release {temp : Nat} (hfresh : ¬ live temp)
    (h : Building (WithTemp live temp) n master l) :
    ∃ l', miReleaseImageRawBytes temp l = .ok l' ∧ l.Same l' ∧ Building live n master l' := by
  have hapart : master.Apart live :=
    ⟨fun ha => h.apart.record (.inl ha), ⟨fun ha => h.apart.table.1 (.inl ha), h.apart.table.2⟩,
      fun page hne => ⟨fun ha => (h.apart.frame page hne).1 (.inl ha), (h.apart.frame page hne).2⟩,
      h.apart.once, h.apart.inside⟩
  have hhas : ¬ (live temp ∨ (temp ≠ 0 ∧ master.Has temp)) := by
    rintro (ha | ⟨hne, rfl | rfl | ⟨page, rfl, -⟩⟩)
    · exact hfresh ha
    · exact h.apart.record (.inr ⟨rfl, hne⟩)
    · exact h.apart.table.1 (.inr ⟨rfl, hne⟩)
    · exact (h.apart.frame page hne).1 (.inr ⟨rfl, hne⟩)
  by_cases htemp : temp = 0
  · subst htemp
    refine ⟨l, rfl, ⟨rfl, rfl⟩, h.holds.congr fun a => or_congr_left (or_iff_left ?_).symm, hapart, h.frames⟩
    rintro ⟨-, hne⟩
    exact hne rfl
  · have hfresh' : ¬ (live temp ∨ master.Has temp) := fun hor => hhas (hor.imp_right fun hm => ⟨htemp, hm⟩)
    have hholds : l.Holds (WithTemp (fun a => live a ∨ master.Has a) temp) :=
      h.holds.congr fun a => or_right_comm
    obtain ⟨l', hrelease, hsame, hholds'⟩ := miReleaseImageRawBytes_spec hfresh' hholds
    exact ⟨l', hrelease, hsame, hholds', hapart, hsame.2.trans h.frames⟩

/-- A build is stopped only by a block whose entries are not aligned, and is stopped by it where it gets
that far. -/
theorem mipBuildImageMaster_ends (h : l.Holds live) (source : RawSource) (hfits : image.Fits data.length)
    (identity base : Nat) :
    Ends (fun e => e = .misaligned ∧ base ≠ image.preferredBase ∧ ∃ raw, source.bytes data = some raw ∧
        ¬ BlocksAligned image (covers image data.length) raw)
      (mipBuildImageMaster data source image identity base l) fun r =>
        Built live l image source data identity base r ∧
        (Plentiful (imagePages image data.length).length l → base ≠ image.preferredBase →
          ∀ raw, source.bytes data = some raw → BlocksAligned image (covers image data.length) raw) := by
  refine Ends.bind ((miAcquireImageRawBytes_ends h data source).imp (fun _ h => h.elim) fun _ h => h) ?_
  rintro ⟨acquired, l1⟩ ⟨hsame1, hpages1, hacquired⟩
  dsimp only at hsame1 hpages1 hacquired
  cases acquired with
  | error status =>
    obtain ⟨hholds1, hnone⟩ := hacquired
    refine Ends.ok ⟨⟨hholds1, hsame1⟩, fun hplenty _ raw hraw => ?_⟩
    rcases hnone with hnone | hnone
    · rw [hnone] at hraw
      cases hraw
    · obtain ⟨rest, hrest⟩ := hplenty.pool
      exact absurd ⟨_, hrest⟩ hnone
  | ok acquired =>
    obtain ⟨raw, temp⟩ := acquired
    obtain ⟨hraw, hfresh, hholds1, hpool1⟩ := hacquired
    have hlength := RawSource.length_bytes hraw
    obtain ⟨⟨allocated, l2⟩, hmaster, hsame2, hpages2, hallocated⟩ :=
      allocateMaster_spec hholds1 image identity base
    dsimp only
    rw [hmaster]
    simp only [bind, Except.bind]
    cases allocated with
    | none =>
      obtain ⟨hholds2, hnone⟩ := hallocated
      obtain ⟨l3, hrelease, hsame3, hholds3⟩ := miReleaseImageRawBytes_spec hfresh hholds2
      dsimp only
      rw [hrelease]
      refine Ends.ok ⟨⟨hholds3, ?_, ?_⟩, fun hplenty => ?_⟩
      · exact hsame3.1.trans (hsame2.1.trans hsame1.1)
      · exact hsame3.2.trans (hsame2.2.trans hsame1.2)
      · obtain ⟨rest, hrest⟩ := hplenty.pool
        exact absurd (hpool1 rest hrest) hnone
    | some master =>
      obtain ⟨hbuilding, hmasterFresh, hidentity, hbase⟩ := hallocated
      have hpages : l2.pages = l.pages := hpages2.trans hpages1
      have hlist : l2.list = l.list := hsame2.1.trans hsame1.1
      have hframes : l1.masterFrames = l.masterFrames := hsame1.2
      have hfill := fillMaster_ends hbuilding (hlength ▸ hfits) hmasterFresh
      rw [hlength, hbase] at hfill
      refine Ends.bind (hfill.imp ?_ fun _ h => h) ?_
      · rintro e ⟨rfl, hne, hblocks⟩
        exact ⟨rfl, hne, raw, hraw, hblocks⟩
      rintro ⟨status, master', l3⟩ ⟨hbuilding3, hgrows, hlist3, hcopy, hplenty⟩
      dsimp only at hbuilding3 hgrows hlist3 hcopy
      obtain ⟨l4, hrelease, hsame4, hbuilding4⟩ := hbuilding3.release hfresh
      have hblocks : Plentiful (imagePages image data.length).length l → base ≠ image.preferredBase →
          ∀ raw, source.bytes data = some raw →
            BlocksAligned image (covers image data.length) raw := by
        rintro ⟨-, hplenty'⟩ hne raw' hraw'
        rw [hraw] at hraw'
        cases hraw'
        exact hplenty (by rwa [Plenty, hpages]) hne
      dsimp only
      rw [hrelease]
      simp only
      cases status with
      | error status =>
        obtain ⟨l5, hfree, hlist5, hframes5, hholds5⟩ := mipFreeImageMaster_spec hbuilding4
        dsimp only
        rw [hfree]
        refine Ends.ok ⟨⟨hholds5, ?_, hframes5.trans hframes⟩, hblocks⟩
        exact hlist5.trans (hsame4.1.trans (hlist3.trans hlist))
      | ok u =>
        refine Ends.ok ⟨⟨?_, ?_, ?_, ?_, raw, hraw, hcopy rfl⟩, hblocks⟩
        · rw [← hframes]
          exact ⟨⟨hbuilding4.holds.balanced, hbuilding4.holds.below, hbuilding4.holds.pos⟩,
            hbuilding4.apart, hbuilding4.frames⟩
        · rw [Loader.link, Loader.link, hsame4.1, hlist3, hlist]
        · rw [hgrows]
          exact hidentity
        · rw [hgrows]
          exact hbase

/-! ## Loading -/

/-- Loading the image in `data` is safe, whether the section keeps its snapshot or reads the file again:
the parse ends with an image that fits or with a status, a build at any base and with any memory links
one whole master or leaves nothing, and the lookup of any name ends. None of them is stopped, which a
load outside of the file and a failed assertion would do. -/
structure LoadsSafely (data : List UInt8) (source : RawSource) : Prop where
  parse : (∃ image, miParseImage data = .ok image) ∨
    ∃ status, miParseImage data = .error (.refused status)
  layout : ∀ image, miParseImage data = .ok image → image.Fits data.length
  build : ∀ image, miParseImage data = .ok image → ∀ live l identity base, Loader.Holds l live →
    ∃ r, mipBuildImageMaster data source image.toImageInfo identity base l = .ok r ∧
      Built live l image.toImageInfo source data identity base r
  exports : ∀ image, miParseImage data = .ok image → ∀ raw, source.bytes data = some raw →
    ∀ name, ∃ rva, miLookupImageExport raw image name = .ok rva

/-- What the loads of a file meet is aligned: its headers, its section headers, and the entries of the
relocation blocks the pass comes to. -/
structure LoadAligned (data : List UInt8) (source : RawSource) : Prop where
  headers : HeadersAligned data
  blocks : ∀ image, Mm.miParseImage data = .ok image → ∀ raw, source.bytes data = some raw →
    BlocksAligned image (covers image data.length) raw

theorem headersAligned_of_parse (h : (∃ image, miParseImage data = .ok image) ∨
    ∃ status, miParseImage data = .error (.refused status)) : HeadersAligned data := by
  have hends := miParseImage_ends data
  obtain ⟨image, himage⟩ | ⟨status, hstatus⟩ := h
  · exact (hends.of_ok himage).1
  · rcases hends.of_error hstatus with ⟨h, -⟩ | ⟨h, -⟩
    · cases h
    · exact h

theorem miParseImage_of_aligned (h : HeadersAligned data) (hparse : Mm.miParseImage data = .ok image) :
    ∃ whole, miParseImage data = .ok whole ∧ whole.toImageInfo = image := by
  have hends := miParseImage_ends data
  cases hresult : miParseImage data with
  | ok whole =>
    have hwhole := (hends.of_ok hresult).2.1
    rw [hparse] at hwhole
    cases hwhole
    exact ⟨whole, rfl, rfl⟩
  | error e =>
    rcases hends.of_error hresult with ⟨-, hnot⟩ | ⟨-, s, -, herror⟩
    · exact absurd h hnot
    · rw [hparse] at herror
      cases herror

/-- An allocator that gives what a build asks for. -/
def plentifulLoader (k : Nat) : Loader where
  pool := List.replicate 3 true
  pages := List.replicate k true

theorem plentifulLoader_plentiful (k : Nat) : Plentiful k (plentifulLoader k) :=
  ⟨⟨[], rfl⟩, [], (append_nil _).symm⟩

theorem plentifulLoader_holds (k : Nat) : (plentifulLoader k).Holds fun _ => False :=
  ⟨⟨.nil, .nil, nofun, fun _ => ⟨nofun, fun h => h.elim False.elim nofun⟩⟩, nofun, Nat.one_pos⟩

/-- Loading an image is safe exactly where everything its loads meet is aligned. -/
theorem loadsSafely_iff (data : List UInt8) (source : RawSource) :
    LoadsSafely data source ↔ LoadAligned data source := by
  have hends := miParseImage_ends data
  constructor
  · intro h
    have hheaders := headersAligned_of_parse h.parse
    refine ⟨hheaders, fun image hparse raw hraw => ?_⟩
    obtain ⟨whole, hwhole, rfl⟩ := miParseImage_of_aligned hheaders hparse
    have hfits := h.layout whole hwhole
    have hbuild := mipBuildImageMaster_ends
      (plentifulLoader_holds (imagePages whole.toImageInfo data.length).length) source hfits 0
      (whole.preferredBase + 1)
    obtain ⟨r, hr, -⟩ := h.build whole hwhole _ _ 0 (whole.preferredBase + 1)
      (plentifulLoader_holds (imagePages whole.toImageInfo data.length).length)
    exact (hbuild.of_ok hr).2 (plentifulLoader_plentiful _) (Nat.succ_ne_self _) raw hraw
  · rintro ⟨hheaders, hblocks⟩
    have hpure {whole : PeImage} (hwhole : miParseImage data = .ok whole) := hends.of_ok hwhole
    refine ⟨?_, fun whole hwhole => (hpure hwhole).2.2, fun whole hwhole live l identity base hholds => ?_,
      fun whole _ raw _ name => miLookupImageExport_returns raw whole name⟩
    · cases hresult : miParseImage data with
      | ok whole => exact .inl ⟨whole, rfl⟩
      | error e =>
        rcases hends.of_error hresult with ⟨-, hnot⟩ | ⟨-, s, rfl, -⟩
        · exact absurd hheaders hnot
        · exact .inr ⟨s, rfl⟩
    · obtain ⟨-, hparse, hfits⟩ := hpure hwhole
      have hbuild := mipBuildImageMaster_ends hholds source hfits identity base
      cases hresult : mipBuildImageMaster data source whole.toImageInfo identity base l with
      | ok r => exact ⟨r, rfl, (hbuild.of_ok hresult).1⟩
      | error e =>
        obtain ⟨-, -, raw, hraw, hodd⟩ := hbuild.of_error hresult
        exact absurd (hblocks _ hparse raw hraw) hodd

/-- A file with the mark of an executable, whose headers would start at an odd offset. -/
def oddHeaders : List UInt8 :=
  [0x4d, 0x5a] ++ List.replicate 58 0 ++ [0x41, 0, 0, 0] ++ List.replicate 249 0

theorem not_loadsSafely_oddHeaders : ¬ LoadsSafely oddHeaders .snapshot := by
  have hparse : miParseImage oddHeaders = .error .misaligned := by decide +kernel
  rintro ⟨⟨image, himage⟩ | ⟨status, hstatus⟩, -⟩
  · rw [hparse] at himage
    cases himage
  · rw [hparse] at hstatus
    cases hstatus

end Proskrnl.Mm.Pe
