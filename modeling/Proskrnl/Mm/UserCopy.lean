import Proskrnl.Library.Outcome
import Proskrnl.Library.Slots
import Proskrnl.Mm.Access

/-!
# Where a checked copy writes

`MiCopyToUserRangeChecked` started in the user half writes nowhere else, and only through leaves
that are present and writable. The tables hold nothing between the limit of user space and the
middle of the address space, so that a copy cannot walk from one half into the other.
-/

namespace Proskrnl.Mm

open Outcome (bind_eq_ok)

/-- Nothing is mapped past the limit of user space. -/
def UserTables (m : Machine) (p : Nat) : Prop :=
  ∀ space, m.space p = some space → ∀ page, kiUserSpaceLimit ≤ page → space.table page = none

/-- The byte at an address is in the user half, in a page the process may write. -/
def UserWritable (m : Machine) (p va : Nat) : Prop :=
  va % 2 ^ 48 < 2 ^ 47 ∧ ∃ space pte, m.space p = some space ∧
    space.table (miRoundDown (va % 2 ^ 48) pageSize) = some pte ∧
    pte.present = true ∧ pte.writable = true

variable {m m' : Machine} {p page va : Nat} {space : Space}

theorem miRoundDown_lt_add (n : Nat) : n < miRoundDown n pageSize + pageSize := by
  simp only [miRoundDown, pageSize]
  omega

theorem miRoundDown_mod (n : Nat) :
    miRoundDown (miRoundDown n pageSize % 2 ^ 48) pageSize = miRoundDown (n % 2 ^ 48) pageSize := by
  simp only [miRoundDown, pageSize]
  omega

theorem uint64_mod (n : Nat) : uint64 n % 2 ^ 48 = n % 2 ^ 48 := by
  simp only [uint64]
  omega

theorem miRoundDown_limit {n : Nat} (h : miRoundDown n pageSize < kiUserSpaceLimit) :
    miRoundDown n pageSize + pageSize ≤ kiUserSpaceLimit := by
  simp only [miRoundDown, pageSize, kiUserSpaceLimit] at *
  omega

theorem space_putWalk {w : Walk} (hspace : m.space p = some space) :
    (m.putWalk p space w).space p =
      some { space with vads := putVad space.vads w.vad, table := w.table } :=
  Slots.join_set_self (Slots.lt_length hspace) _

variable {table : PageTable} {pte : Pte} {resolved : Option NtStatus}
  {source : Machine → Nat → UInt8} {base written length : Nat}

theorem miUnmapUserPage_cases {table' : PageTable} (h : miUnmapUserPage table page = .ok table') :
    (∃ pte, table page = some pte) ∧ table' = Function.update table page none := by
  unfold miUnmapUserPage at h
  split at h
  · cases h
  case h_2 pte hpte => exact ⟨⟨pte, hpte⟩, (Except.ok.inj h).symm⟩

theorem miMapUserPage_cases {table' : PageTable} (h : miMapUserPage table page pte = .ok table') :
    table' = Function.update table page (some pte) := by
  unfold miMapUserPage at h
  split at h
  · cases h
  · split at h
    · cases h
    · exact (Except.ok.inj h).symm

theorem remap_keeps {table1 table2 : PageTable}
    (h1 : miUnmapUserPage table page = .ok table1) (h2 : miMapUserPage table1 page pte = .ok table2) :
    (∃ old, table page = some old) ∧ ∀ q, q ≠ page → table2 q = table q := by
  obtain ⟨hold, rfl⟩ := miUnmapUserPage_cases h1
  rw [miMapUserPage_cases h2]
  refine ⟨hold, ?_⟩
  intro q hq
  rw [Function.update_of_ne hq, Function.update_of_ne hq]

theorem miResolveWriteFault_keeps (hspace : m.space p = some space)
    (h : miResolveWriteFault m p space page = .ok (m', resolved)) :
    ∃ space', m'.space p = some space' ∧ (∀ q, q ≠ page → space'.table q = space.table q) ∧
      (space.table page = none → space'.table page = none) := by
  have hsame : ∃ space', m.space p = some space' ∧
      (∀ q, q ≠ page → space'.table q = space.table q) ∧
      (space.table page = none → space'.table page = none) :=
    ⟨space, hspace, fun _ _ => rfl, id⟩
  have hswap : ∀ {table table1 table2 : PageTable} {pte : Pte} {phys : Physical} {vad : Vad},
      table = space.table → miUnmapUserPage table page = .ok table1 →
      miMapUserPage table1 page pte = .ok table2 →
      ∃ space', (m.putWalk p space ⟨phys, table2, vad⟩).space p = some space' ∧
        (∀ q, q ≠ page → space'.table q = space.table q) ∧
        (space.table page = none → space'.table page = none) := by
    intro table table1 table2 pte phys vad htable h1 h2
    subst htable
    obtain ⟨⟨old, hold⟩, hkeep⟩ := remap_keeps h1 h2
    refine ⟨_, space_putWalk hspace, hkeep, ?_⟩
    intro hnone
    rw [hnone] at hold
    cases hold
  unfold miResolveWriteFault at h
  split at h
  · cases h; exact hsame
  simp only at h
  split at h
  · cases h; exact hsame
  split at h
  · cases h; exact hsame
  split at h
  · split at h
    · cases h; exact hsame
    · obtain ⟨w, hw, h⟩ := bind_eq_ok h
      cases h
      unfold mipRemapWatchPage at hw
      simp only at hw
      split at hw
      · cases hw
        exact ⟨_, space_putWalk hspace, fun _ _ => rfl, id⟩
      · obtain ⟨table, htable, hw⟩ := bind_eq_ok hw
        cases hw
        unfold remapUserPage at htable
        split at htable
        · cases htable
        · obtain ⟨table1, h1, h2⟩ := bind_eq_ok htable
          exact hswap rfl h1 h2
  · split at h
    · cases h; exact hsame
    · split at h
      · cases h; exact hsame
      · split at h
        · cases h; exact hsame
        · split at h
          · cases h
          · split at h
            · cases h
            · obtain ⟨table1, h1, h⟩ := bind_eq_ok h
              obtain ⟨table2, h2, h⟩ := bind_eq_ok h
              cases h
              exact hswap rfl h1 h2

theorem UserTables.resolve (hm : UserTables m p) (hspace : m.space p = some space)
    (h : miResolveWriteFault m p space page = .ok (m', resolved)) : UserTables m' p := by
  obtain ⟨space', hspace', hne, hnone⟩ := miResolveWriteFault_keeps hspace h
  intro s hs q hq
  rw [hspace'] at hs
  cases hs
  rcases eq_or_ne q page with rfl | hqp
  · exact hnone (hm space hspace q hq)
  · rw [hne q hqp]; exact hm space hspace q hq

/-- A fault on a page that could not be written takes no other page away. -/
theorem UserWritable.resolve (hw : UserWritable m p va) (hspace : m.space p = some space)
    (hleaf : miTranslateUserPage m space page = some pte) (hpte : pte.writable = false)
    (hround : miRoundDown page pageSize = page)
    (h : miResolveWriteFault m p space page = .ok (m', resolved)) : UserWritable m' p va := by
  obtain ⟨space', hspace', hne, -⟩ := miResolveWriteFault_keeps hspace h
  obtain ⟨hhalf, s, leaf, hs, htable, hpresent, hwritable⟩ := hw
  rw [hspace] at hs
  cases hs
  refine ⟨hhalf, space', leaf, hspace', ?_, hpresent, hwritable⟩
  rw [hne _ ?_, htable]
  intro heq
  -- the page of the byte would be the one that cannot be written
  have hlt : page < 2 ^ 47 := by
    rw [← heq]; exact lt_of_le_of_lt (miRoundDown_le _) hhalf
  have hmod : page % 2 ^ 48 = page := Nat.mod_eq_of_lt (by omega)
  simp only [miTranslateUserPage, hmod, hround, if_pos hlt] at hleaf
  rw [← heq, htable] at hleaf
  cases hleaf
  rw [hwritable] at hpte
  cases hpte

structure LeafFound (m : Machine) (p page : Nat) (m' : Machine) (leaf : Option Pte) : Prop where
  tables : UserTables m' p
  keeps : ∀ va, UserWritable m p va → UserWritable m' p va
  user : ∀ pte, leaf = some pte → page % 2 ^ 48 < 2 ^ 47 → UserWritable m' p page

theorem userWritable_of_leaf (hspace : m.space p = some space)
    (hleaf : miTranslateUserPage m space page = some pte) (hhalf : page % 2 ^ 48 < 2 ^ 47)
    (hpresent : pte.present = true) (hwritable : pte.writable = true) : UserWritable m p page := by
  refine ⟨hhalf, space, pte, hspace, ?_, hpresent, hwritable⟩
  have hlt : miRoundDown (page % 2 ^ 48) pageSize < 2 ^ 47 :=
    lt_of_le_of_lt (miRoundDown_le _) hhalf
  simpa only [miTranslateUserPage, if_pos hlt] using hleaf

theorem writableLeaf_found {leaf : Option Pte} (hm : UserTables m p)
    (hspace : m.space p = some space) (hround : miRoundDown page pageSize = page)
    (h : writableLeaf m p space page = .ok (m', leaf)) : LeafFound m p page m' leaf := by
  unfold writableLeaf at h
  split at h
  · cases h
    exact ⟨hm, fun _ hva => hva, fun _ hpte => nomatch hpte⟩
  case h_2 pte hleaf =>
    split at h
    case isTrue hbits =>
      have hro : pte.writable = false := by simpa using hbits.2
      obtain ⟨⟨m1, resolved⟩, hresolve, h⟩ := bind_eq_ok h
      have htables := hm.resolve hspace hresolve
      have hkeeps : ∀ va, UserWritable m p va → UserWritable m1 p va := fun va hva =>
        hva.resolve hspace hleaf hro hround hresolve
      cases resolved with
      | none =>
        cases h
        exact ⟨htables, hkeeps, fun _ hpte => nomatch hpte⟩
      | some status =>
        simp only at h
        split at h
        · cases h
          refine ⟨htables, hkeeps, ?_⟩
          intro found hfound hhalf
          rw [Option.filter_eq_some_iff] at hfound
          obtain ⟨hfound, hallowed⟩ := hfound
          obtain ⟨space1, hspace1, hfound⟩ := Option.bind_eq_some_iff.mp hfound
          rw [Bool.and_eq_true] at hallowed
          exact userWritable_of_leaf hspace1 hfound hhalf hallowed.1 hallowed.2
        · cases h
          exact ⟨htables, hkeeps, fun _ hpte => nomatch hpte⟩
    case isFalse hbits =>
      cases h
      refine ⟨hm, fun _ hva => hva, ?_⟩
      intro found hfound hhalf
      split at hfound
      case isTrue hallowed =>
        cases hfound
        exact userWritable_of_leaf hspace hleaf hhalf hallowed.1 hallowed.2
      case isFalse => cases hfound

theorem copyIn_spaces {frame : Nat} (offset done n : Nat)
    (m : Machine) : (copyIn source frame offset done n m).spaces = m.spaces := by
  induction n generalizing offset done m with
  | zero => rfl
  | succ n ih => rw [copyIn, ih]

theorem UserTables.of_spaces (hm : UserTables m p) (h : m'.spaces = m.spaces) :
    UserTables m' p := by
  intro space hspace
  simp only [Machine.space, h] at hspace
  exact hm space hspace

theorem UserWritable.of_spaces (hw : UserWritable m p va) (h : m'.spaces = m.spaces) :
    UserWritable m' p va := by
  obtain ⟨hhalf, space, pte, hspace, hrest⟩ := hw
  refine ⟨hhalf, space, pte, ?_, hrest⟩
  simpa only [Machine.space, h] using hspace

theorem UserWritable.of_page {va' : Nat} (hw : UserWritable m p va)
    (hpage : miRoundDown (va % 2 ^ 48) pageSize = miRoundDown (va' % 2 ^ 48) pageSize)
    (hhalf : va' % 2 ^ 48 < 2 ^ 47) : UserWritable m p va' := by
  obtain ⟨-, space, pte, hspace, htable, hbits⟩ := hw
  exact ⟨hhalf, space, pte, hspace, hpage ▸ htable, hbits⟩

theorem UserWritable.below_limit (hw : UserWritable m p va) (hm : UserTables m p) :
    miRoundDown (va % 2 ^ 48) pageSize + pageSize ≤ kiUserSpaceLimit := by
  obtain ⟨-, space, pte, hspace, htable, -⟩ := hw
  apply miRoundDown_limit
  by_contra hlimit
  rw [hm space hspace _ (Nat.le_of_not_lt hlimit)] at htable
  cases htable

theorem chunkAt_le (va left : Nat) : chunkAt va left ≤ left := Nat.min_le_right _ _

theorem chunkAt_page {left i : Nat} (hi : i < chunkAt (uint64 (base + written)) left)
    (hhalf : (base + written) % 2 ^ 48 < 2 ^ 47) :
    miRoundDown ((base + written + i) % 2 ^ 48) pageSize =
      miRoundDown ((base + written) % 2 ^ 48) pageSize := by
  simp only [chunkAt, uint64, pageSize, miRoundDown] at *
  omega

structure CopyKept (m : Machine) (p base written : Nat) (m' : Machine) (written' : Nat) : Prop where
  tables : UserTables m' p
  keeps : ∀ va, UserWritable m p va → UserWritable m' p va
  writable : ∀ i, written ≤ i → i < written' → UserWritable m' p (base + i)
  grows : written ≤ written'

theorem turn_writable (left : Nat) (hm : UserTables m p)
    (hw : UserWritable m p (miRoundDown (uint64 (base + written)) pageSize))
    (hhalf : (base + written) % 2 ^ 48 < 2 ^ 47) :
    (∀ i, i < chunkAt (uint64 (base + written)) left → UserWritable m p (base + written + i)) ∧
      (base + (written + chunkAt (uint64 (base + written)) left)) % 2 ^ 48 < 2 ^ 47 := by
  have hfirst : UserWritable m p (base + written) := by
    apply hw.of_page _ hhalf
    rw [miRoundDown_mod, uint64_mod]
  have hlimit := hfirst.below_limit hm
  have hlt := miRoundDown_lt_add ((base + written) % 2 ^ 48)
  constructor
  · intro i hi
    have hpage := chunkAt_page hi hhalf
    apply hfirst.of_page hpage.symm
    have hnext := miRoundDown_lt_add ((base + written + i) % 2 ^ 48)
    rw [hpage] at hnext
    simp only [kiUserSpaceLimit] at hlimit
    omega
  · simp only [chunkAt, uint64, pageSize, miRoundDown, kiUserSpaceLimit] at *
    omega

theorem copyToLoop_kept {fuel written' : Nat}
    (hm : UserTables m p) (hhalf : (base + written) % 2 ^ 48 < 2 ^ 47)
    (h : copyToLoop source p base length fuel written m = .ok (m', written')) :
    CopyKept m p base written m' written' := by
  induction fuel generalizing written m with
  | zero =>
    cases h
    exact ⟨hm, fun _ hva => hva, fun i h1 h2 => absurd h2 (Nat.not_lt.mpr h1), Nat.le_refl _⟩
  | succ fuel ih =>
    have hstop : CopyKept m p base written m written :=
      ⟨hm, fun _ hva => hva, fun i h1 h2 => absurd h2 (Nat.not_lt.mpr h1), Nat.le_refl _⟩
    unfold copyToLoop at h
    split at h
    · cases h; exact hstop
    simp only at h
    split at h
    · cases h; exact hstop
    case h_2 space hspace =>
      obtain ⟨⟨m1, leaf⟩, hleaf, h⟩ := bind_eq_ok h
      have hfound := writableLeaf_found hm hspace
        (by simp only [miRoundDown, pageSize]; omega) hleaf
      cases leaf with
      | none =>
        cases h
        exact ⟨hfound.tables, hfound.keeps,
          fun i h1 h2 => hfound.keeps _ (hstop.writable i h1 h2), Nat.le_refl _⟩
      | some pte =>
        simp only at h
        have hpage : miRoundDown (uint64 (base + written)) pageSize % 2 ^ 48 < 2 ^ 47 := by
          have := uint64_mod (base + written)
          simp only [miRoundDown, pageSize] at *
          omega
        obtain ⟨hturn, hnext⟩ := turn_writable (length - written) hfound.tables
          (hfound.user pte rfl hpage) hhalf
        have hrest := ih (hfound.tables.of_spaces (copyIn_spaces _ _ _ _)) hnext h
        refine ⟨hrest.tables, fun va hva =>
          hrest.keeps va ((hfound.keeps va hva).of_spaces (copyIn_spaces _ _ _ _)), ?_,
          by have := hrest.grows; omega⟩
        intro i h1 h2
        rcases Nat.lt_or_ge i (written + chunkAt (uint64 (base + written)) (length - written)) with
          hi | hi
        · apply hrest.keeps
          have := hturn (i - written) (by omega)
          rw [show base + written + (i - written) = base + i by omega] at this
          exact this.of_spaces (copyIn_spaces _ _ _ _)
        · exact hrest.writable i hi h2

theorem copyToLoop_le {fuel written' : Nat} (hle : written ≤ length)
    (h : copyToLoop source p base length fuel written m = .ok (m', written')) :
    written' ≤ length := by
  induction fuel generalizing written m with
  | zero => cases h; exact hle
  | succ fuel ih =>
    unfold copyToLoop at h
    split at h
    · cases h; exact hle
    simp only at h
    split at h
    · cases h; exact hle
    · obtain ⟨⟨m1, leaf⟩, -, h⟩ := bind_eq_ok h
      cases leaf with
      | none => cases h; exact hle
      | some pte =>
        have := chunkAt_le (uint64 (base + written)) (length - written)
        exact ih (by omega) h

theorem miCopyToUserRangeChecked_kept (hm : UserTables m p) (hhalf : base % 2 ^ 48 < 2 ^ 47)
    (h : miCopyToUserRangeChecked source m p base length = .ok (m', written)) :
    CopyKept m p base 0 m' written ∧ written ≤ length :=
  ⟨copyToLoop_kept hm hhalf h, copyToLoop_le (Nat.zero_le _) h⟩

end Proskrnl.Mm
