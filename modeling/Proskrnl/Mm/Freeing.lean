import Proskrnl.Library.Outcome
import Proskrnl.Mm.Layout

/-!
# Reservations that are emptied, split and merged

What `MiDecommitPages`, `MiCarveVad` and the merge of placeholders leave as it was. A page is compared
by its record (`Recorded`), so that a reservation which is split or merged around a page leaves the page
as it was.
-/

namespace Proskrnl.Mm
open List

open Intervals (Laid Free)
open Outcome (bind_eq_ok map_eq_ok)

structure PageRecord where
  protect : Nat
  dirty : Bool
  allocationProtect : Nat
  type : VadType
  noCache : Bool
  writeWatch : Bool
  isPlaceholder : Bool
  isFreePlaceholder : Bool
  deriving DecidableEq

def Vad.record (vad : Vad) (page : Nat) : PageRecord where
  protect := vad.protectAt (vad.index page)
  dirty := vad.isDirty (vad.index page)
  allocationProtect := vad.allocationProtect
  type := vad.type
  noCache := vad.noCache
  writeWatch := vad.writeWatch
  isPlaceholder := vad.isPlaceholder
  isFreePlaceholder := vad.isFreePlaceholder

def Vad.Has (vad : Vad) (page : Nat) (r : PageRecord) : Prop := vad.Holds page ∧ vad.record page = r

/-- The record of a page of an address space; a page that is not reserved has none. -/
def Recorded (vads : List Vad) (page : Nat) (r : PageRecord) : Prop := ∃ vad ∈ vads, vad.Has page r

/-- The pages outside a range keep their records. -/
def SameOutside (lo hi : Nat) (vads vads' : List Vad) : Prop :=
  ∀ page, page < lo ∨ hi ≤ page → ∀ r, Recorded vads' page r ↔ Recorded vads page r

/-- The indices of the pages fit a `ULONG`. -/
def Small (vads : List Vad) : Prop := ∀ vad ∈ vads, vad.size < 2 ^ 44

/-- Those of the reservation that an address falls into do. -/
def SmallAt (vads : List Vad) (base : Nat) : Prop := ∀ vad, miFindVad vads base = some vad → vad.size < 2 ^ 44

variable {vads vads' : List Vad} {vad vad' : Vad} {base size page lo hi n : Nat} {r : PageRecord}

theorem SameOutside.trans {vads'' : List Vad} (h : SameOutside lo hi vads vads')
    (h' : SameOutside lo hi vads' vads'') : SameOutside lo hi vads vads'' :=
  fun page hpage r => (h' page hpage r).trans (h page hpage r)

theorem Vad.index_eq (hsmall : vad.size < 2 ^ 44) (hlimit : page < vad.limit) :
    vad.index page = (page - vad.base) / pageSize := by
  rw [Vad.limit] at hlimit
  rw [Vad.index, pageSize, ulong, Nat.mod_eq_of_lt]
  omega

theorem Vad.Holds.index_ne {page' : Nat} (h : vad.Holds page) (h' : vad.Holds page')
    (hbase : vad.base % pageSize = 0) (hsmall : vad.size < 2 ^ 44) (hne : page ≠ page') :
    vad.index page ≠ vad.index page' := by
  obtain ⟨hle, hlt, hdvd⟩ := h
  obtain ⟨hle', hlt', hdvd'⟩ := h'
  rw [Vad.index_eq hsmall hlt, Vad.index_eq hsmall hlt', pageSize]
  rw [pageSize] at hbase hdvd hdvd'
  omega

/-- What a loop over `n` pages from one on leaves as it was. -/
structure Emptied (base n : Nat) (w w' : Walk) : Prop where
  vad : ∃ pageProtect, w'.vad = { w.vad with pageProtect }
  protect : ∀ i, (∀ k < n, w.vad.index (base + k * pageSize) ≠ i) →
    w'.vad.protectAt i = w.vad.protectAt i
  table : ∀ page, page < base ∨ base + n * pageSize ≤ page → w'.table page = w.table page

variable {w w' : Walk} {status : NtStatus} {grants : Grants} {carved : Option Vad} {run : List Vad}

theorem decommitPage_spec (h : decommitPage page w = .ok (w', status)) :
    status = statusSuccess ∧ Emptied page 1 w w' := by
  rw [decommitPage] at h
  dsimp only at h
  split at h
  · cases h
    exact ⟨rfl, ⟨_, rfl⟩, fun _ _ => rfl, fun _ _ => rfl⟩
  · split at h
    · cases h
    case h_2 pte hpte =>
      rw [miUnmapUserPage, hpte] at h
      cases h
      refine ⟨rfl, ⟨_, rfl⟩, fun i hi => ?_, fun q hq => ?_⟩
      · have hne : w.vad.index page ≠ i := by
          have := hi 0 (by decide)
          rwa [Nat.zero_mul, Nat.add_zero] at this
        change (w.vad.pageProtect.set (w.vad.index page) 0).getD i 0 = w.vad.pageProtect.getD i 0
        rw [getD_eq_getElem?_getD, getD_eq_getElem?_getD, getElem?_set_ne hne]
      · refine Function.update_of_ne ?_ _ _
        rw [pageSize] at hq
        omega

theorem Emptied.refl (base : Nat) (w : Walk) : Emptied base 0 w w :=
  ⟨⟨_, rfl⟩, fun _ _ => rfl, fun _ _ => rfl⟩

theorem Emptied.cons {w1 w2 : Walk} (h : Emptied base 1 w w1)
    (h' : Emptied (base + pageSize) n w1 w2) : Emptied base (n + 1) w w2 := by
  obtain ⟨protects, hvad⟩ := h.vad
  obtain ⟨protects', hvad'⟩ := h'.vad
  have hindex : ∀ q, w1.vad.index q = w.vad.index q := by
    intro q
    rw [hvad]
    rfl
  refine ⟨⟨protects', by rw [hvad', hvad]⟩, fun i hi => ?_, fun q hq => ?_⟩
  · rw [h'.protect i fun k hk => ?_, h.protect i fun k hk => hi k (by omega)]
    have := hi (k + 1) (by omega)
    rw [hindex]
    rwa [Nat.add_mul, Nat.one_mul, Nat.add_comm _ pageSize, ← Nat.add_assoc] at this
  · rw [h'.table q, h.table q]
    · rw [Nat.add_mul] at hq
      omega
    · rw [Nat.add_mul] at hq
      omega

theorem eachPage_decommitPage
    (h : eachPage decommitPage base n w = .ok (w', status)) : Emptied base n w w' := by
  induction n generalizing base w with
  | zero =>
    cases h
    exact .refl base _
  | succ n ih =>
    rw [eachPage] at h
    cases hpage : decommitPage base w with
    | error e =>
      rw [hpage] at h
      cases h
    | ok r =>
      obtain ⟨w1, status1⟩ := r
      rw [hpage] at h
      obtain ⟨rfl, hfirst⟩ := decommitPage_spec hpage
      exact hfirst.cons (ih h)

theorem miDecommitPages_spec (h : miDecommitPages base size w = .ok w') :
    Emptied base (size / pageSize) w w' := by
  rw [miDecommitPages] at h
  cases heach : eachPage decommitPage base (size / pageSize) w with
  | error e =>
    rw [heach] at h
    cases h
  | ok r =>
    rw [heach] at h
    cases h
    exact eachPage_decommitPage heach

theorem Emptied.record {w w' : Walk} (h : Emptied base (size / pageSize) w w')
    (hplaced : w.vad.Placed) (hsmall : w.vad.size < 2 ^ 44) (hbase : base % pageSize = 0)
    (hsize : size % pageSize = 0) (hlo : w.vad.base ≤ base) (hhi : base + size ≤ w.vad.limit)
    (hpage : page < base ∨ base + size ≤ page) (hholds : w.vad.Holds page) :
    w'.vad.record page = w.vad.record page := by
  obtain ⟨protects, hvad⟩ := h.vad
  have hindex : w'.vad.index page = w.vad.index page := by
    rw [hvad]
    rfl
  have hprotect : w'.vad.protectAt (w.vad.index page) = w.vad.protectAt (w.vad.index page) := by
    refine h.protect _ fun k hk => ?_
    have hlt : k * pageSize < size := by
      rw [pageSize] at hk hsize ⊢
      omega
    refine Vad.Holds.index_ne ⟨by omega, by omega, ?_⟩ hholds hplaced.base_dvd hsmall (by omega)
    rw [Nat.add_mul_mod_self_right, hbase]
  have hdirty : w'.vad.isDirty (w.vad.index page) = w.vad.isDirty (w.vad.index page) := by
    rw [hvad]
    rfl
  rw [Vad.record, Vad.record, hindex, hprotect, hdirty, hvad]

theorem getD_filled_take {α : Type} (l : List α) (zero : α) (first n length i : Nat) (hi : i < n) :
    (filled length zero ((l.drop first).take n)).getD i zero = l.getD (first + i) zero := by
  rw [filled, getD_eq_getElem?_getD, getD_eq_getElem?_getD, getElem?_append]
  split
  case isTrue hlt => rw [getElem?_take, if_pos hi, getElem?_drop]
  case isFalse hge =>
    have hshort : l.length ≤ first + i := by
      rw [length_take, length_drop] at hge
      omega
    rw [getElem?_eq_none hshort, getElem?_replicate]
    split <;> rfl

theorem miCloneVadRange_range (h : miCloneVadRange vad base size = .ok vad') :
    vad'.base = base ∧ vad'.size = size := by
  rw [miCloneVadRange] at h
  split at h
  · cases h
  · dsimp only at h
    split at h
    · cases h
    · cases h
      exact ⟨rfl, rfl⟩

theorem miCloneVadRange_spec (h : miCloneVadRange vad base size = .ok vad')
    (hplaced : vad.Placed) (hsmall : vad.size < 2 ^ 44) (htype : vad.type = .memPrivate)
    (hbase : base % pageSize = 0) (hsize : size % pageSize = 0) :
    vad'.base = base ∧ vad'.size = size ∧ ∀ page, vad'.Holds page → vad'.record page = vad.record page := by
  rw [miCloneVadRange] at h
  split at h
  · cases h
  case isFalse hinside =>
    dsimp only at h
    split at h
    · cases h
    · cases h
      refine ⟨rfl, rfl, fun page hpage => ?_⟩
      obtain ⟨hle, hlt, hdvd⟩ := hpage
      change base ≤ page at hle
      change page < base + size at hlt
      have hvbase := hplaced.base_dvd
      have hlimit : vad.limit = vad.base + vad.size := rfl
      have hfirst : ulong ((base - vad.base) / pageSize) = (base - vad.base) / pageSize := by
        rw [ulong, pageSize, Nat.mod_eq_of_lt]
        omega
      have hcount : ulong (size / pageSize) = size / pageSize := by
        rw [ulong, pageSize, Nat.mod_eq_of_lt]
        omega
      have hown : ulong ((page - base) / pageSize) = (page - base) / pageSize := by
        rw [ulong, pageSize, Nat.mod_eq_of_lt]
        omega
      have hindex : vad.index page = (base - vad.base) / pageSize + (page - base) / pageSize := by
        rw [Vad.index_eq hsmall (by omega), pageSize]
        rw [pageSize] at hbase hvbase
        omega
      have hin : (page - base) / pageSize < size / pageSize := by
        rw [pageSize] at hsize ⊢
        omega
      have hprotect := getD_filled_take vad.pageProtect 0 ((base - vad.base) / pageSize)
        (size / pageSize) (size / pageSize) ((page - base) / pageSize) hin
      have hdirty : ((vad.watchDirty.map fun dirty => (dirty.drop ((base - vad.base) / pageSize)).take
          (size / pageSize)).getD []).getD ((page - base) / pageSize) false =
            (vad.watchDirty.getD []).getD ((base - vad.base) / pageSize + (page - base) / pageSize)
              false := by
        cases vad.watchDirty with
        | none => rfl
        | some dirty =>
          change ((dirty.drop _).take _).getD _ false = dirty.getD _ false
          rw [getD_eq_getElem?_getD, getD_eq_getElem?_getD, getElem?_take, if_pos hin,
            getElem?_drop]
      rw [Vad.record, Vad.record, hindex, htype]
      simp only [Vad.index, Vad.protectAt, Vad.isDirty, miCreateVad, hfirst, hcount, hown, hprotect,
        hdirty]

/-- The list that `MiCarveVad` leaves: what was there without the reservation, and the pieces of it. -/
structure Carved (vads : List Vad) (vad : Vad) (base size : Nat) (vads' : List Vad)
    (carved : Option Vad) : Prop where
  private_ : vad.type = .memPrivate
  low : vad.base ≤ base
  high : base + size ≤ vad.limit
  mem : ∀ v ∈ vads', (v ∈ vads ∧ v.base ≠ vad.base) ∨
    (vad.base < base ∧ miCloneVadRange vad vad.base (base - vad.base) = .ok v) ∨
    (base + size < vad.limit ∧
      miCloneVadRange vad (base + size) (vad.limit - (base + size)) = .ok v) ∨
    miCloneVadRange vad base size = .ok v
  kept : ∀ v ∈ vads, v.base ≠ vad.base → v ∈ vads'
  head : vad.base < base → ∃ v ∈ vads', miCloneVadRange vad vad.base (base - vad.base) = .ok v
  tail : base + size < vad.limit →
    ∃ v ∈ vads', miCloneVadRange vad (base + size) (vad.limit - (base + size)) = .ok v
  carved : ∀ v, carved = some v → v ∈ vads' ∧ miCloneVadRange vad base size = .ok v

def insertClone (want : Bool) (vad : Vad) (first length : Nat) (list : List Vad) :
    Except Halt (List Vad) :=
  if want then (miCloneVadRange vad first length).map (miInsertVad list) else .ok list

theorem insertClone_spec {want : Bool} {list list' : List Vad} {first length : Nat}
    (h : insertClone want vad first length list = .ok list') :
    (∀ v ∈ list', v ∈ list ∨ want = true ∧ miCloneVadRange vad first length = .ok v) ∧
      (∀ v ∈ list, v ∈ list') ∧
      (want = true → ∃ v ∈ list', miCloneVadRange vad first length = .ok v) := by
  rw [insertClone] at h
  split at h
  case isTrue hwant =>
    obtain ⟨piece, hclone, rfl⟩ := map_eq_ok h
    refine ⟨fun v hv => ?_, fun v hv => mem_miInsertVad.mpr (.inr hv),
      fun _ => ⟨piece, mem_miInsertVad.mpr (.inl rfl), hclone⟩⟩
    rcases mem_miInsertVad.mp hv with rfl | hv
    · exact .inr ⟨hwant, hclone⟩
    · exact .inl hv
  case isFalse hwant =>
    cases h
    exact ⟨fun v hv => .inl hv, fun v hv => hv, fun h => absurd h hwant⟩

theorem miCarveVad_eq {keep : Bool} (htype : vad.type = .memPrivate)
    (hlow : vad.base ≤ base) (hhigh : base + size ≤ vad.limit)
    (hgrants : ¬ ((vad.base < base ∧ !grants.head) ∨ (base + size < vad.limit ∧ !grants.tail) ∨
      (keep ∧ !grants.carved))) :
    miCarveVad grants vads vad base size keep =
      insertClone (vad.base < base) vad vad.base (base - vad.base) (removeVad vads vad) >>= fun list =>
      insertClone (base + size < vad.limit) vad (base + size) (vad.limit - (base + size)) list >>=
        fun list =>
      if keep then
        (miCloneVadRange vad base size).map fun piece =>
          (miInsertVad list piece, some piece, statusSuccess)
      else .ok (list, none, statusSuccess) := by
  rw [miCarveVad, if_neg (not_not_intro htype), if_neg (by omega), if_neg hgrants]
  simp only [insertClone, decide_eq_true_iff]
  by_cases hhead : vad.base < base
  · by_cases htail : base + size < vad.limit
    · simp only [if_pos hhead, if_pos htail]
      rfl
    · simp only [if_pos hhead, if_neg htail]
      rfl
  · by_cases htail : base + size < vad.limit
    · simp only [if_neg hhead, if_pos htail]
      rfl
    · simp only [if_neg hhead, if_neg htail]
      rfl

theorem miCarveVad_spec {keep : Bool}
    (h : miCarveVad grants vads vad base size keep = .ok (vads', carved, status))
    (hs : ntSuccess status = true) : Carved vads vad base size vads' carved := by
  have hshape : vad.type = .memPrivate ∧ vad.base ≤ base ∧ base + size ≤ vad.limit ∧
      ¬ ((vad.base < base ∧ !grants.head) ∨ (base + size < vad.limit ∧ !grants.tail) ∨
        (keep ∧ !grants.carved)) := by
    rw [miCarveVad] at h
    split at h
    · cases h
    case isFalse htype =>
      split at h
      · cases h
      case isFalse hinside =>
        dsimp only at h
        split at h
        · cases h
          exact absurd hs (by decide)
        case isFalse hgrants => exact ⟨Decidable.not_not.mp htype, by omega, by omega, hgrants⟩
  obtain ⟨htype, hlow, hhigh, hgrants⟩ := hshape
  rw [miCarveVad_eq htype hlow hhigh hgrants] at h
  obtain ⟨list, hlist, h⟩ := bind_eq_ok h
  obtain ⟨list', hlist', h⟩ := bind_eq_ok h
  obtain ⟨hmem, hkept, hhead⟩ := insertClone_spec hlist
  obtain ⟨hmem', hkept', htail⟩ := insertClone_spec hlist'
  simp only [decide_eq_true_iff] at hmem hhead hmem' htail
  have hpieces : ∀ v ∈ list', (v ∈ vads ∧ v.base ≠ vad.base) ∨
      (vad.base < base ∧ miCloneVadRange vad vad.base (base - vad.base) = .ok v) ∨
      (base + size < vad.limit ∧
        miCloneVadRange vad (base + size) (vad.limit - (base + size)) = .ok v) ∨
      miCloneVadRange vad base size = .ok v := by
    intro v hv
    rcases hmem' v hv with hv | hv
    · rcases hmem v hv with hv | hv
      · exact .inl (mem_removeVad.mp hv)
      · exact .inr (.inl hv)
    · exact .inr (.inr (.inl hv))
  have hothers : ∀ v ∈ vads, v.base ≠ vad.base → v ∈ list' :=
    fun v hv hne => hkept' v (hkept v (mem_removeVad.mpr ⟨hv, hne⟩))
  have hhead' : vad.base < base →
      ∃ v ∈ list', miCloneVadRange vad vad.base (base - vad.base) = .ok v := by
    intro hwant
    obtain ⟨v, hv, hclone⟩ := hhead hwant
    exact ⟨v, hkept' v hv, hclone⟩
  split at h
  · obtain ⟨piece, hclone, hpair⟩ := map_eq_ok h
    cases hpair
    refine ⟨htype, hlow, hhigh, fun v hv => ?_,
      fun v hv hne => mem_miInsertVad.mpr (.inr (hothers v hv hne)), fun hwant => ?_,
      fun hwant => ?_, fun v hv => ?_⟩
    · rcases mem_miInsertVad.mp hv with rfl | hv
      · exact .inr (.inr (.inr hclone))
      · exact hpieces v hv
    · obtain ⟨v, hv, hclone⟩ := hhead' hwant
      exact ⟨v, mem_miInsertVad.mpr (.inr hv), hclone⟩
    · obtain ⟨v, hv, hclone⟩ := htail hwant
      exact ⟨v, mem_miInsertVad.mpr (.inr hv), hclone⟩
    · obtain rfl := Option.some.inj hv
      exact ⟨mem_miInsertVad.mpr (.inl rfl), hclone⟩
  · cases h
    exact ⟨htype, hlow, hhigh, hpieces, hothers, hhead', htail,
      fun _ hv => absurd hv (Option.some_ne_none _).symm⟩

theorem miCarveVad_kept
    (h : miCarveVad grants vads vad base size true = .ok (vads', carved, status)) :
    (carved = none ∧ vads' = vads ∧ status = statusNoMemory) ∨
      (∃ v, carved = some v) ∧ status = statusSuccess := by
  by_cases hshape : vad.type = .memPrivate ∧ vad.base ≤ base ∧ base + size ≤ vad.limit
  · obtain ⟨htype, hlow, hhigh⟩ := hshape
    by_cases hgrants : (vad.base < base ∧ !grants.head) ∨ (base + size < vad.limit ∧ !grants.tail) ∨
        (true ∧ !grants.carved)
    · rw [miCarveVad, if_neg (not_not_intro htype), if_neg (by omega), if_pos hgrants] at h
      cases h
      exact .inl ⟨rfl, rfl, rfl⟩
    · rw [miCarveVad_eq htype hlow hhigh (by simpa using hgrants)] at h
      obtain ⟨list, -, h⟩ := bind_eq_ok h
      obtain ⟨list', -, h⟩ := bind_eq_ok h
      obtain ⟨piece, -, hpair⟩ := map_eq_ok h
      cases hpair
      exact .inr ⟨⟨piece, rfl⟩, rfl⟩
  · rw [miCarveVad] at h
    split at h
    · cases h
    case isFalse htype =>
      split at h
      · cases h
      case isFalse hinside => exact absurd ⟨Decidable.not_not.mp htype, by omega, by omega⟩ hshape

theorem holds_of_clone (hbase : vad'.base = base) (hsize : vad'.size = size) :
    vad'.Holds page ↔ base ≤ page ∧ page < base + size ∧ page % pageSize = 0 := by
  constructor
  · rintro ⟨hle, hlt, hdvd⟩
    rw [Vad.limit, hbase, hsize] at hlt
    exact ⟨hbase ▸ hle, hlt, hdvd⟩
  · rintro ⟨hle, hlt, hdvd⟩
    refine ⟨hbase.symm ▸ hle, ?_, hdvd⟩
    rw [Vad.limit, hbase, hsize]
    exact hlt

/-- A reservation that is carved up keeps the records of its pages outside the range. -/
theorem Carved.sameOutside (h : Carved vads vad base size vads' carved)
    (htiled : Tiled vads) (hmem : vad ∈ vads) (hsmall : vad.size < 2 ^ 44)
    (hbase : base % pageSize = 0) (hsize : size % pageSize = 0) :
    SameOutside base (base + size) vads vads' := by
  have hplaced := htiled.placed vad hmem
  have hvbase := hplaced.base_dvd
  have hvsize := hplaced.size_dvd
  have hlow := h.low
  have hhigh := h.high
  have hlimit : vad.limit = vad.base + vad.size := rfl
  have hheadSize : (base - vad.base) % pageSize = 0 := by
    rw [pageSize] at *
    omega
  have htailBase : (base + size) % pageSize = 0 := by
    rw [pageSize] at *
    omega
  have htailSize : (vad.limit - (base + size)) % pageSize = 0 := by
    rw [pageSize] at *
    omega
  intro page hpage r
  constructor
  · rintro ⟨v, hv, hholds, hrecord⟩
    rcases h.mem v hv with ⟨hv, -⟩ | ⟨-, hclone⟩ | ⟨-, hclone⟩ | hclone
    · exact ⟨v, hv, hholds, hrecord⟩
    · obtain ⟨hb, hs, hsame⟩ := miCloneVadRange_spec hclone hplaced hsmall h.private_ hvbase hheadSize
      obtain ⟨hle, hlt, hdvd⟩ := (holds_of_clone hb hs).mp hholds
      exact ⟨vad, hmem, ⟨hle, by omega, hdvd⟩, (hsame page hholds).symm.trans hrecord⟩
    · obtain ⟨hb, hs, hsame⟩ :=
        miCloneVadRange_spec hclone hplaced hsmall h.private_ htailBase htailSize
      obtain ⟨hle, hlt, hdvd⟩ := (holds_of_clone hb hs).mp hholds
      exact ⟨vad, hmem, ⟨by omega, by omega, hdvd⟩, (hsame page hholds).symm.trans hrecord⟩
    · obtain ⟨hb, hs, -⟩ := miCloneVadRange_spec hclone hplaced hsmall h.private_ hbase hsize
      obtain ⟨hle, hlt, -⟩ := (holds_of_clone hb hs).mp hholds
      omega
  · rintro ⟨v, hv, hholds, hrecord⟩
    by_cases hv' : v.base = vad.base
    · obtain rfl := htiled.laid.eq_of_lo hv hmem hv'
      rcases hpage with hpage | hpage
      · obtain ⟨piece, hpiece, hclone⟩ := h.head (by have := hholds.base; omega)
        obtain ⟨hb, hs, hsame⟩ :=
          miCloneVadRange_spec hclone hplaced hsmall h.private_ hvbase hheadSize
        have hin : piece.Holds page :=
          (holds_of_clone hb hs).mpr ⟨hholds.base, by omega, hholds.dvd⟩
        exact ⟨piece, hpiece, hin, (hsame page hin).trans hrecord⟩
      · have hend := hholds.limit
        obtain ⟨piece, hpiece, hclone⟩ := h.tail (by omega)
        obtain ⟨hb, hs, hsame⟩ :=
          miCloneVadRange_spec hclone hplaced hsmall h.private_ htailBase htailSize
        have hin : piece.Holds page := (holds_of_clone hb hs).mpr ⟨hpage, by omega, hholds.dvd⟩
        exact ⟨piece, hpiece, hin, (hsame page hin).trans hrecord⟩
    · exact ⟨v, h.kept v hv hv', hholds, hrecord⟩

theorem sameOutside_putVad (hplace : ∃ v ∈ vads, v.base = vad'.base)
    (hsame : ∀ v ∈ vads, v.base = vad'.base → ∀ page, page < lo ∨ hi ≤ page → ∀ r,
      vad'.Has page r ↔ v.Has page r) : SameOutside lo hi vads (putVad vads vad') := by
  intro page hpage r
  constructor
  · rintro ⟨v, hv, hhas⟩
    rcases mem_putVad hv with rfl | ⟨hv, -⟩
    · obtain ⟨u, hu, hbase⟩ := hplace
      exact ⟨u, hu, (hsame u hu hbase page hpage r).mp hhas⟩
    · exact ⟨v, hv, hhas⟩
  · rintro ⟨v, hv, hhas⟩
    by_cases hbase : v.base = vad'.base
    · exact ⟨vad', putVad_mem hv hbase.symm, (hsame v hv hbase page hpage r).mpr hhas⟩
    · exact ⟨v, putVad_of_ne hv hbase, hhas⟩

theorem Emptied.sameOutside (h : Emptied base (size / pageSize) w w')
    (htiled : Tiled vads) (hmem : w.vad ∈ vads) (hsmall : w.vad.size < 2 ^ 44)
    (hbase : base % pageSize = 0) (hsize : size % pageSize = 0) (hlo : w.vad.base ≤ base)
    (hhi : base + size ≤ w.vad.limit) :
    SameOutside base (base + size) vads (putVad vads w'.vad) := by
  obtain ⟨protects, hvad⟩ := h.vad
  have hb : w'.vad.base = w.vad.base := by rw [hvad]
  have hs : w'.vad.size = w.vad.size := by rw [hvad]
  refine sameOutside_putVad ⟨w.vad, hmem, hb.symm⟩ fun v hv hvb page hpage r => ?_
  obtain rfl := htiled.laid.eq_of_lo hv hmem (hvb.trans hb)
  have hholds : w'.vad.Holds page ↔ w.vad.Holds page := by
    rw [holds_of_clone hb hs, holds_of_clone rfl rfl]
  have hrecord := h.record (htiled.placed _ hmem) hsmall hbase hsize hlo hhi hpage
  constructor
  · rintro ⟨hin, hr⟩
    exact ⟨hholds.mp hin, (hrecord (hholds.mp hin)).symm.trans hr⟩
  · rintro ⟨hin, hr⟩
    exact ⟨hholds.mpr hin, (hrecord hin).trans hr⟩

/-- Placeholders that stand next to each other in the list and touch. -/
structure PlaceholderRun (vads run : List Vad) : Prop where
  infix_ : run <:+: vads
  free : ∀ v ∈ run, v.isFreePlaceholder = true
  touch : run.IsChain fun a b => a.limit = b.base

theorem placeholderRun_spec (size covered : Nat) (l : List Vad) :
    placeholderRun size covered l <+: l ∧
      (∀ v ∈ placeholderRun size covered l, v.isFreePlaceholder = true) ∧
      (placeholderRun size covered l).IsChain fun a b => a.limit = b.base := by
  induction l generalizing covered with
  | nil => exact ⟨List.nil_prefix, fun _ hv => absurd hv not_mem_nil, .nil⟩
  | cons v rest ih =>
    rw [placeholderRun.eq_def]
    dsimp only
    split
    · exact ⟨List.nil_prefix, fun _ hv => absurd hv not_mem_nil, .nil⟩
    case isFalse hfree =>
      have hv : v.isFreePlaceholder = true := by simpa using hfree
      have hsingle : ∀ u ∈ [v], u.isFreePlaceholder = true := by
        intro u hu
        rw [mem_singleton.mp hu]
        exact hv
      have halone : [v] <+: v :: rest := prefix_cons_inj v |>.mpr nil_prefix
      split
      · exact ⟨halone, hsingle, .singleton _⟩
      · split
        · exact ⟨halone, hsingle, .singleton _⟩
        case h_2 next rest =>
          split
          · exact ⟨halone, hsingle, .singleton _⟩
          case isFalse htouch =>
            obtain ⟨hpre, hall, hchain⟩ := ih (covered + v.size)
            refine ⟨prefix_cons_inj v |>.mpr hpre, fun u hu => ?_, ?_⟩
            · rcases mem_cons.mp hu with rfl | hu
              · exact hv
              · exact hall u hu
            · cases hrun : placeholderRun size (covered + v.size) (next :: rest) with
              | nil => exact .singleton _
              | cons u run =>
                rw [hrun] at hpre hchain
                obtain ⟨rfl, -⟩ := cons_prefix_cons.mp hpre
                exact .cons_cons (Decidable.not_not.mp htouch) hchain

/-- Reservations that touch lie one behind the other, and leave nothing out. -/
theorem touching_covers {v : Vad} (h : (v :: run).IsChain fun a b => a.limit = b.base) :
    (∀ u ∈ v :: run, v.base ≤ u.base ∧ u.limit ≤ v.base + ((v :: run).map Vad.size).sum) ∧
      ∀ x, v.base ≤ x → x < v.base + ((v :: run).map Vad.size).sum →
        ∃ u ∈ v :: run, u.base ≤ x ∧ x < u.limit := by
  induction run generalizing v with
  | nil =>
    rw [map_singleton, sum_singleton]
    refine ⟨fun u hu => ?_, fun x hle hlt => ⟨v, mem_singleton_self v, hle, hlt⟩⟩
    rw [mem_singleton.mp hu]
    exact ⟨le_refl _, le_refl _⟩
  | cons next run ih =>
    obtain ⟨htouch, hrest⟩ := isChain_cons_cons.mp h
    obtain ⟨hinside, hcovers⟩ := ih hrest
    have hlimit : v.limit = v.base + v.size := rfl
    rw [map_cons, sum_cons]
    generalize ((next :: run).map Vad.size).sum = total at hinside hcovers ⊢
    refine ⟨fun u hu => ?_, fun x hle hlt => ?_⟩
    · rcases mem_cons.mp hu with rfl | hu
      · omega
      · have := hinside u hu
        omega
    · by_cases hx : x < v.limit
      · exact ⟨v, mem_cons_self, hle, hx⟩
      · obtain ⟨u, hu, hin⟩ := hcovers x (by omega) (by omega)
        exact ⟨u, .tail _ hu, hin⟩

theorem mem_foldl_removeVad {v : Vad} :
    v ∈ run.foldl removeVad vads ↔ v ∈ vads ∧ ∀ u ∈ run, v.base ≠ u.base := by
  induction run generalizing vads with
  | nil => simp
  | cons u run ih =>
    rw [foldl_cons, ih, mem_removeVad]
    simp [and_assoc]

theorem sameOutside_merge {merged : Vad} (htiled : Tiled vads) (hrun : ∀ u ∈ vad :: run, u ∈ vads)
    (hinside : ∀ u ∈ vad :: run, lo ≤ u.base ∧ u.limit ≤ hi) (hbase : merged.base = vad.base)
    (hlo : lo ≤ merged.base) (hhi : merged.limit ≤ hi) :
    SameOutside lo hi vads (putVad (run.foldl removeVad vads) merged) := by
  -- the placeholders of the run have no page outside
  have hnone : ∀ u ∈ vads, ∀ w ∈ vad :: run, u.base = w.base → ∀ page, page < lo ∨ hi ≤ page →
      ¬ u.Holds page := by
    intro u hu w hw huw page hpage hholds
    obtain rfl := htiled.laid.eq_of_lo hu (hrun w hw) huw
    have hin := hinside u hw
    have := hholds.base
    have := hholds.limit
    omega
  intro page hpage r
  constructor
  · rintro ⟨v, hv, hhas⟩
    rcases mem_putVad hv with rfl | ⟨hv, -⟩
    · have := hhas.1.base
      have := hhas.1.limit
      omega
    · exact ⟨v, (mem_foldl_removeVad.mp hv).1, hhas⟩
  · rintro ⟨v, hv, hhas⟩
    have hapart : ∀ w ∈ vad :: run, v.base ≠ w.base :=
      fun w hw heq => hnone v hv w hw heq page hpage hhas.1
    refine ⟨v, putVad_of_ne (mem_foldl_removeVad.mpr ⟨hv, fun u hu => ?_⟩) ?_, hhas⟩
    · exact hapart u (.tail _ hu)
    · rw [hbase]
      exact hapart vad mem_cons_self

end Proskrnl.Mm
