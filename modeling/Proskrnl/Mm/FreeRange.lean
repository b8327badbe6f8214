import Proskrnl.Mm.Freeing

/-!
# The range that a free names

`MiFreeVirtualMemory` from the outside: the pages whose record it changes, and the reservation that the
named range lies in. The range is rounded in 64 bits before it is compared with the reservation, and a
size of 0 stands for the whole reservation.
-/

namespace Proskrnl.Mm
open List

open Intervals (Laid Free)
open Outcome (bind_eq_ok map_eq_ok)

variable {vads vads' : List Vad} {vad vad' : Vad} {base size page lo hi n : Nat} {r : PageRecord}

def freeRange (grants : Grants) (m : Machine) (p : Nat) (space : Space) (base size type : Nat) :
    Except Halt (Machine × Reply) :=
  if base = 0 then refuse m statusInvalidParameter
  else match miFindVad space.vads base with
    | none => refuse m statusMemoryNotAllocated
    | some vad =>
      if vad.type ≠ .memPrivate then refuse m statusInvalidParameter
      else if size = 0 ∧ base ≠ vad.base then refuse m statusFreeVmNotAtBase
      else if vad.limit - base < size ∧ !hasFlag type memCoalescePlaceholders then
        refuse m statusUnableToFreeVm
      else if type = memDecommit then do
        let w ← miDecommitPages base (if size ≠ 0 then size else vad.limit - base)
          ⟨m.phys, space.table, vad⟩
        .ok (m.putWalk p space w, { status := statusSuccess, base, size })
      else if type = memRelease then do
        let size := if size = 0 then vad.size else size
        let w ← miDecommitPages base size ⟨m.phys, space.table, vad⟩
        let (vads, _, status) ← miCarveVad grants (putVad space.vads w.vad) w.vad base size false
        .ok ({ m with phys := w.phys }.setSpace p { space with vads, table := w.table },
          if ntSuccess status then { status, base, size } else { status })
      else if type = memRelease ||| memPreservePlaceholder then
        miPreservePlaceholder grants m p space vad base size
      else if type = memRelease ||| memCoalescePlaceholders then
        miCoalescePlaceholders grants m p space vad base size
      else if type = memCoalescePlaceholders then refuse m statusInvalidParameter4
      else refuse m statusInvalidParameter

/-- The size that `MiFreeVirtualMemory` goes on with, in 64 bits. -/
def freeSize (address givenSize : Nat) : Nat :=
  if givenSize ≠ 0 then
    uint64 (miRoundUp (uint64 (address + givenSize)) pageSize + 2 ^ 64 - miRoundDown address pageSize)
  else 0

theorem miFreeVirtualMemory_eq (grants : Grants) (m : Machine) (p : Nat) (space : Space)
    (address givenSize type : Nat) : miFreeVirtualMemory grants m p space address givenSize type =
      freeRange grants m p space (miRoundDown address pageSize) (freeSize address givenSize) type :=
  rfl

structure Confined (m m' : Machine) (p : Nat) (space : Space) (lo hi : Nat) : Prop where
  others : ∀ q, q ≠ p → m'.space q = m.space q
  pages : ∃ space', m'.space p = some space' ∧ SameOutside lo hi space.vads space'.vads ∧
    ∀ page, page < lo ∨ hi ≤ page → space'.table page = space.table page

/-- A range inside one reservation or, for a coalesce, inside one run of placeholders. -/
def Named (vads : List Vad) (type lo hi : Nat) : Prop :=
  (∃ v ∈ vads, v.base ≤ lo ∧ hi ≤ v.limit) ∨
  (type = memRelease ||| memCoalescePlaceholders ∧ ∃ run, PlaceholderRun vads run ∧
    ∀ x, lo ≤ x → x < hi → ∃ v ∈ run, v.base ≤ x ∧ x < v.limit)

section
variable {grants : Grants} {m m' : Machine} {p : Nat} {space : Space} {reply : Reply} {type : Nat}

theorem confined_setSpace {phys : Physical} {table : PageTable} (hspace : m.space p = some space)
    (hvads : SameOutside lo hi space.vads vads)
    (htable : ∀ page, page < lo ∨ hi ≤ page → table page = space.table page) :
    Confined m ({ m with phys }.setSpace p { space with vads, table }) p space lo hi :=
  ⟨fun _ hq => space_setSpace_of_ne hq,
    ⟨_, space_setSpace (show Machine.space { m with phys } p = some space from hspace), hvads, htable⟩⟩

variable {w : Walk}

theorem Emptied.table_outside {w' : Walk} (h : Emptied base (size / pageSize) w w')
    (hsize : size % pageSize = 0) (hpage : page < base ∨ base + size ≤ page) :
    w'.table page = w.table page := by
  apply h.table
  rw [pageSize] at hsize ⊢
  omega

structure Target (space : Space) (base size : Nat) (vad : Vad) : Prop where
  tiled : Tiled space.vads
  mem : vad ∈ space.vads
  small : vad.size < 2 ^ 44
  base_dvd : base % pageSize = 0
  size_dvd : size % pageSize = 0
  low : vad.base ≤ base

section
variable (h : Target space base size vad) (hspace : m.space p = some space)
  (hhi : base + size ≤ vad.limit)
  (hw : miDecommitPages base size ⟨m.phys, space.table, vad⟩ = .ok w)
include h hspace hhi hw

theorem Target.decommit :
    Confined m (m.putWalk p space w) p space base (base + size) := by
  have hemptied := miDecommitPages_spec hw
  exact confined_setSpace hspace
    (hemptied.sameOutside h.tiled h.mem h.small h.base_dvd h.size_dvd h.low hhi)
    fun page hpage => hemptied.table_outside h.size_dvd hpage

theorem Target.release {carved : Option Vad} {status : NtStatus}
    (hcarve : miCarveVad grants (putVad space.vads w.vad) w.vad base size false =
      .ok (vads, carved, status)) (hs : ntSuccess status = true) :
    Confined m ({ m with phys := w.phys }.setSpace p { space with vads, table := w.table }) p space
      base (base + size) := by
  have hemptied := miDecommitPages_spec hw
  obtain ⟨protects, hvad⟩ := hemptied.vad
  have hb : w.vad.base = vad.base := by rw [hvad]
  have hsz : w.vad.size = vad.size := by rw [hvad]
  have hcarved := miCarveVad_spec hcarve hs
  refine confined_setSpace hspace (SameOutside.trans
    (hemptied.sameOutside h.tiled h.mem h.small h.base_dvd h.size_dvd h.low hhi)
    (hcarved.sameOutside (h.tiled.put h.mem hb hsz) (putVad_mem h.mem hb) ?_ h.base_dvd h.size_dvd))
    fun page hpage => hemptied.table_outside h.size_dvd hpage
  rw [hsz]
  exact h.small

end

theorem sameOutside_preserved {carved emptied : Vad} (hmem : carved ∈ vads)
    (honly : ∀ v ∈ vads, v.base = carved.base → ∀ page, v.Holds page → lo ≤ page ∧ page < hi)
    (hbase : emptied.base = carved.base) (hlo : lo ≤ emptied.base) (hhi : emptied.limit ≤ hi) :
    SameOutside lo hi vads (putVad vads emptied) := by
  refine sameOutside_putVad ⟨carved, hmem, hbase.symm⟩ fun v hv hvb page hpage r => ?_
  constructor
  · rintro ⟨hholds, -⟩
    have := hholds.base
    have := hholds.limit
    omega
  · rintro ⟨hholds, -⟩
    have := honly v hv (hvb.trans hbase) page hholds
    omega

/-- The end of `MiPreservePlaceholder`: the piece becomes a free placeholder. -/
def emptyPlaceholder (m : Machine) (p : Nat) (space : Space) (base size : Nat) (vads : List Vad)
    (vad : Vad) : Except Halt (Machine × Reply) := do
  let w ← miDecommitPages vad.base vad.size ⟨m.phys, space.table, vad⟩
  let emptied := { w.vad with
    allocationProtect := pageNoAccess
    isPlaceholder := true
    isFreePlaceholder := true
    watchDirty := none
    writeWatch := false }
  .ok (m.putWalk p { space with vads } { w with vad := emptied },
    { status := statusSuccess, base, size })

theorem confined_emptyPlaceholder {v : Vad} (hspace : m.space p = some space) (hmem : v ∈ vads)
    (hvads : SameOutside base (base + size) space.vads vads)
    (honly : ∀ u ∈ vads, u.base = v.base → ∀ page, u.Holds page → base ≤ page ∧ page < base + size)
    (hbase : v.base = base) (hsize : v.size = size) (hdvd : size % pageSize = 0)
    (h : emptyPlaceholder m p space base size vads v = .ok (m', reply)) :
    Confined m m' p space base (base + size) := by
  obtain ⟨w, hw, hrest⟩ := bind_eq_ok h
  cases hrest
  rw [hbase, hsize] at hw
  have hemptied := miDecommitPages_spec hw
  obtain ⟨protects, hvad⟩ := hemptied.vad
  have hb : w.vad.base = v.base := by rw [hvad]
  have hl : w.vad.limit = base + size := by rw [Vad.limit, hvad, hbase, hsize]
  refine confined_setSpace hspace (hvads.trans (sameOutside_preserved hmem honly hb ?_ ?_))
    fun page hpage => hemptied.table_outside hdvd hpage
  · change base ≤ w.vad.base
    omega
  · change w.vad.limit ≤ base + size
    omega

theorem miPreservePlaceholder_eq (hsize : size ≠ 0) (hplaceholder : vad.isPlaceholder = true)
    (hpart : ¬ (vad.isFreePlaceholder = true ∧ size = vad.size)) (htype : vad.type = .memPrivate) :
    miPreservePlaceholder grants m p space vad base size =
      if size < vad.size then
        miCarveVad grants space.vads vad base size true >>= fun r =>
          match r.2.1 with
          | none => refuse m r.2.2
          | some v => emptyPlaceholder m p space base size r.1 v
      else emptyPlaceholder m p space base size space.vads vad := by
  rw [miPreservePlaceholder, if_neg hsize, if_neg (by simpa using hplaceholder), if_neg hpart,
    if_neg (not_not_intro htype)]
  split
  · rfl
  · rfl

theorem Target.preserve (h : Target space base size vad) (hspace : m.space p = some space)
    (hhi : base + size ≤ vad.limit) (hresult : miPreservePlaceholder grants m p space vad base size =
      .ok (m', reply)) (hs : ntSuccess reply.status = true) :
    Confined m m' p space base (base + size) := by
  have hplaced := h.tiled.placed vad h.mem
  have hlow := h.low
  have hlimit : vad.limit = vad.base + vad.size := rfl
  have hshape : size ≠ 0 ∧ vad.isPlaceholder = true ∧
      ¬ (vad.isFreePlaceholder = true ∧ size = vad.size) ∧ vad.type = .memPrivate := by
    rw [miPreservePlaceholder] at hresult
    split at hresult
    · cases hresult
      exact absurd hs (by decide)
    case isFalse hsize =>
      split at hresult
      · cases hresult
        exact absurd hs (by decide)
      case isFalse hplaceholder =>
        split at hresult
        · cases hresult
          exact absurd hs (by decide)
        case isFalse hpart =>
          split at hresult
          · cases hresult
          case isFalse htype =>
            exact ⟨hsize, by simpa using hplaceholder, hpart, Decidable.not_not.mp htype⟩
  obtain ⟨hsize, hplaceholder, hpart, htype⟩ := hshape
  rw [miPreservePlaceholder_eq hsize hplaceholder hpart htype] at hresult
  split at hresult
  case isTrue hsplit =>
    obtain ⟨⟨vads, carved, status⟩, hcarve, hresult⟩ := bind_eq_ok hresult
    rcases miCarveVad_kept hcarve with ⟨rfl, -, rfl⟩ | ⟨⟨v, rfl⟩, rfl⟩
    · cases hresult
      exact absurd hs (show ¬ ntSuccess statusNoMemory = true by decide)
    · have hok : ntSuccess statusSuccess = true := by decide
      have hcarved := miCarveVad_spec hcarve hok
      obtain ⟨hv, hclone⟩ := hcarved.carved v rfl
      obtain ⟨hb, hsz, -⟩ :=
        miCloneVadRange_spec hclone hplaced h.small htype h.base_dvd h.size_dvd
      refine confined_emptyPlaceholder hspace hv
        (hcarved.sameOutside h.tiled h.mem h.small h.base_dvd h.size_dvd) (fun u hu hub page hpage => ?_)
        hb hsz h.size_dvd hresult
      rcases hcarved.mem u hu with ⟨hu, hne⟩ | ⟨hwant, hclone'⟩ | ⟨-, hclone'⟩ | hclone'
      · -- another reservation does not begin inside this one
        have hune := (h.tiled.placed u hu).base_lt_limit
        have huv := h.tiled.laid.eq_of_overlap hu h.mem (by omega) (by omega)
        exact absurd (congrArg Vad.base huv) hne
      · have hub' := (miCloneVadRange_range hclone').1
        omega
      · have hub' := (miCloneVadRange_range hclone').1
        omega
      · obtain rfl := Except.ok.inj (hclone'.symm.trans hclone)
        obtain ⟨hle, hlt, -⟩ := (holds_of_clone hb hsz).mp hpage
        exact ⟨hle, hlt⟩
  case isFalse hwhole =>
    have hbase : vad.base = base := by omega
    refine confined_emptyPlaceholder hspace h.mem (fun _ _ _ => Iff.rfl) (fun u hu hub page hpage => ?_)
      hbase (by omega) h.size_dvd hresult
    obtain rfl := h.tiled.laid.eq_of_lo hu h.mem hub
    have := hpage.base
    have := hpage.limit
    omega

theorem placeholderRun_at (size : Nat) (htiled : Tiled vads) (hmem : vad ∈ vads)
    (hne : placeholderRun size 0 (vads.dropWhile (·.base ≠ vad.base)) ≠ []) :
    ∃ rest, placeholderRun size 0 (vads.dropWhile (·.base ≠ vad.base)) = vad :: rest := by
  obtain ⟨hpre, -, -⟩ := placeholderRun_spec size 0 (vads.dropWhile (·.base ≠ vad.base))
  cases hrun : placeholderRun size 0 (vads.dropWhile (·.base ≠ vad.base)) with
  | nil => exact absurd hrun hne
  | cons u rest =>
    rw [hrun] at hpre
    obtain ⟨tail, htail⟩ := hpre
    have hhead : (vads.dropWhile (·.base ≠ vad.base)).head? = some u := by
      rw [← htail]
      rfl
    have hbase : u.base = vad.base := by
      have := head?_dropWhile_not (fun v : Vad => decide (v.base ≠ vad.base)) vads
      rw [hhead] at this
      simpa using this
    have humem : u ∈ vads :=
      (dropWhile_suffix _).subset (mem_of_head? hhead)
    obtain rfl := htiled.laid.eq_of_lo humem hmem hbase
    exact ⟨rest, rfl⟩

theorem Target.coalesce (h : Target space base size vad) (hspace : m.space p = some space)
    (hresult : miCoalescePlaceholders grants m p space vad base size = .ok (m', reply))
    (hs : ntSuccess reply.status = true) :
    Confined m m' p space base (base + size) ∧
      (∃ run, PlaceholderRun space.vads run ∧ 2 ≤ run.length ∧ (run.map Vad.size).sum = size ∧
        ∀ x, base ≤ x → x < base + size → ∃ v ∈ run, v.base ≤ x ∧ x < v.limit) ∧
      base + size ≤ kiUserSpaceLimit := by
  rw [miCoalescePlaceholders] at hresult
  split at hresult
  · cases hresult
    exact absurd hs (by decide)
  split at hresult
  · cases hresult
    exact absurd hs (by decide)
  case isFalse hsize hbase =>
  have hbase : base = vad.base := Decidable.not_not.mp hbase
  dsimp only at hresult
  obtain ⟨hpre, hfree, hchain⟩ :=
    placeholderRun_spec size 0 (space.vads.dropWhile (·.base ≠ vad.base))
  have hat := placeholderRun_at size h.tiled h.mem
  generalize placeholderRun size 0 (space.vads.dropWhile (·.base ≠ vad.base)) = run
    at hresult hpre hfree hchain hat
  split at hresult
  · cases hresult
  split at hresult
  · cases hresult
    exact absurd hs (by decide)
  case isFalse hrun =>
  split at hresult
  · cases hresult
  split at hresult
  · cases hresult
    exact absurd hs (by decide)
  split at hresult
  · cases hresult
  split at hresult
  · cases hresult
  cases hresult
  have hinner : run <:+: space.vads := hpre.isInfix.trans (dropWhile_suffix _).isInfix
  obtain ⟨rest, rfl⟩ := hat (by rintro rfl; exact hrun (.inl (by decide)))
  have htotal : ((vad :: rest).map Vad.size).sum = size := by omega
  obtain ⟨hinside, hcovers⟩ := touching_covers hchain
  rw [htotal, ← hbase] at hinside hcovers
  have hmem : ∀ u ∈ vad :: rest, u ∈ space.vads := fun u hu => hinner.subset hu
  refine ⟨confined_setSpace hspace (sameOutside_merge h.tiled hmem hinside rfl ?_ ?_) fun _ _ => rfl,
    ⟨vad :: rest, ⟨hinner, hfree, hchain⟩, by omega, htotal, hcovers⟩, ?_⟩
  · exact Nat.le_of_eq hbase
  · change vad.base + size ≤ base + size
    omega
  · obtain ⟨v, hv, -, hlt⟩ := hcovers (base + size - 1) (by omega) (by omega)
    have := (h.tiled.placed v (hmem v hv)).limit
    omega

def Frees (type size : Nat) : Prop :=
  type = memDecommit ∨ type = memRelease ∨ type = memRelease ||| memPreservePlaceholder ∨
    type = memRelease ||| memCoalescePlaceholders ∧ 2 * pageSize ≤ size

structure Freed (m m' : Machine) (p : Nat) (space : Space) (base size type : Nat) : Prop where
  confined : Confined m m' p space base (base + size)
  named : Named space.vads type base (base + size)
  frees : Frees type size
  lowest : miLowestUserAddress ≤ base
  limit : base + size ≤ kiUserSpaceLimit

theorem freeRange_freed (hspace : m.space p = some space) (htiled : Tiled space.vads)
    (hsmall : SmallAt space.vads base) (hbase : base % pageSize = 0) (hsize : size % pageSize = 0)
    (hne : size ≠ 0) (h : freeRange grants m p space base size type = .ok (m', reply))
    (hs : ntSuccess reply.status = true) : Freed m m' p space base size type := by
  rw [freeRange] at h
  split at h
  · cases h
    exact absurd hs (by decide)
  split at h
  · cases h
    exact absurd hs (by decide)
  case h_2 vad hfind =>
  obtain ⟨hmem, hlow, hlt⟩ := miFindVad_some hfind
  have hplaced := htiled.placed vad hmem
  have htarget : Target space base size vad :=
    ⟨htiled, hmem, hsmall vad hfind, hbase, hsize, hlow⟩
  have hlowest := hplaced.lowest.trans hlow
  have hlimit := hplaced.limit
  split at h
  · cases h
    exact absurd hs (by decide)
  split at h
  · cases h
    exact absurd hs (by decide)
  split at h
  · cases h
    exact absurd hs (by decide)
  case isFalse hroom =>
  have hinside : hasFlag type memCoalescePlaceholders = false → base + size ≤ vad.limit := by
    intro hflag
    rw [hflag] at hroom
    simp only [Bool.not_false, and_true] at hroom
    omega
  split at h
  case isTrue htype =>
    have hhi := hinside (by rw [htype]; decide)
    obtain ⟨w, hw, h⟩ := bind_eq_ok h
    cases h
    exact ⟨htarget.decommit hspace hhi hw, .inl ⟨vad, hmem, hlow, hhi⟩, .inl htype, hlowest,
      hhi.trans hlimit⟩
  case isFalse =>
    split at h
    case isTrue htype =>
      have hhi := hinside (by rw [htype]; decide)
      obtain ⟨w, hw, h⟩ := bind_eq_ok h
      obtain ⟨⟨vads, carved, status⟩, hcarve, h⟩ := bind_eq_ok h
      cases h
      have hok : ntSuccess status = true := by
        by_contra hfailed
        rw [if_neg hfailed] at hs
        exact hfailed hs
      exact ⟨htarget.release hspace hhi hw hcarve hok, .inl ⟨vad, hmem, hlow, hhi⟩,
        .inr (.inl htype), hlowest, hhi.trans hlimit⟩
    case isFalse =>
      split at h
      case isTrue htype =>
        have hhi := hinside (by rw [htype]; decide)
        exact ⟨htarget.preserve hspace hhi h hs, .inl ⟨vad, hmem, hlow, hhi⟩,
          .inr (.inr (.inl htype)), hlowest, hhi.trans hlimit⟩
      case isFalse =>
        split at h
        case isTrue htype =>
          obtain ⟨hconfined, ⟨run, hrun, htwo, hsum, hcovers⟩, hend⟩ := htarget.coalesce hspace h hs
          refine ⟨hconfined, .inr ⟨htype, run, hrun, hcovers⟩, .inr (.inr (.inr ⟨htype, ?_⟩)),
            hlowest, hend⟩
          have hpages : ∀ v ∈ run, pageSize ≤ v.size := by
            intro v hv
            have hv := htiled.placed v (hrun.infix_.subset hv)
            have hdvd := hv.size_dvd
            have hpos := hv.pos
            rw [pageSize] at hdvd ⊢
            omega
          obtain ⟨a, b, rest, rfl⟩ : ∃ a b rest, run = a :: b :: rest := by
            rcases run with _ | ⟨a, _ | ⟨b, rest⟩⟩
            · simp at htwo
            · simp at htwo
            · exact ⟨a, b, rest, rfl⟩
          have ha := hpages a mem_cons_self
          have hb := hpages b (.tail _ mem_cons_self)
          rw [map_cons, map_cons, sum_cons, sum_cons] at hsum
          omega
        case isFalse =>
          split at h
          · cases h
            exact absurd hs (by decide)
          · cases h
            exact absurd hs (by decide)

end

def rangeEnd (address size : Nat) : Nat := (address + size + pageSize - 1) / pageSize * pageSize

/-- A free of a size changes only pages of the range it names, and the range lies inside a reservation;
a size that goes past the end of the addresses is not taken for 0. -/
def FreesNamed (grants : Grants) (m : Machine) (p : Nat) (space : Space) (address size type : Nat) :
    Prop :=
  (∀ m' reply, miFreeVirtualMemory grants m p space address size type = .ok (m', reply) →
    ntSuccess reply.status = true → size ≠ 0 →
    Confined m m' p space (miRoundDown address pageSize) (rangeEnd address size) ∧
      Named space.vads type (miRoundDown address pageSize) (rangeEnd address size)) ∧
  (2 ^ 64 < address + size → freeSize address size ≠ 0)

/-- A range past the end of the addresses whose end wraps into the first page or the page before it:
the size reads as 0 or as one page. -/
def Misread (address size type : Nat) : Prop :=
  2 ^ 64 < address + size ∧
    ((address + size ≤ 2 ^ 64 + miRoundDown address pageSize ∧
        2 ^ 64 + miRoundDown address pageSize < address + size + pageSize) ∨
      (2 ^ 64 + miRoundDown address pageSize < address + size ∧
        miLowestUserAddress ≤ miRoundDown address pageSize ∧
        miRoundDown address pageSize + pageSize ≤ kiUserSpaceLimit ∧
        (type = memDecommit ∨ type = memRelease ∨ type = memRelease ||| memPreservePlaceholder)))

section
variable {grants : Grants} {m m' : Machine} {p : Nat} {space : Space} {reply : Reply}
  {address type : Nat}

theorem freeSize_dvd (address size : Nat) : freeSize address size % pageSize = 0 := by
  rw [freeSize]
  split
  · rw [miRoundUp, miRoundDown, uint64, uint64, uint64, pageSize]
    omega
  · rfl

theorem freeSize_spec (haddress : address < 2 ^ 64) (hsize : size < 2 ^ 64) (hne : size ≠ 0)
    (hbase : miRoundDown address pageSize ≠ 0)
    (hlimit : miRoundDown address pageSize + freeSize address size ≤ kiUserSpaceLimit) :
    (address + size < 2 ^ 64 ∧ freeSize address size ≠ 0 ∧
      miRoundDown address pageSize + freeSize address size = rangeEnd address size) ∨
    (2 ^ 64 < address + size ∧
      ((freeSize address size = 0 ∧ address + size ≤ 2 ^ 64 + miRoundDown address pageSize ∧
          2 ^ 64 + miRoundDown address pageSize < address + size + pageSize) ∨
        (freeSize address size = pageSize ∧
          2 ^ 64 + miRoundDown address pageSize < address + size))) := by
  rw [freeSize, if_pos hne] at hlimit ⊢
  rw [miRoundUp, miRoundDown, uint64, uint64, uint64, pageSize, kiUserSpaceLimit] at hlimit
  rw [miRoundDown, pageSize] at hbase
  rw [rangeEnd, miRoundUp, miRoundDown, uint64, uint64, uint64, pageSize]
  omega

theorem freeSize_eq_zero (haddress : address < 2 ^ 64) (hsize : size < 2 ^ 64)
    (hwraps : 2 ^ 64 < address + size) (hzero : freeSize address size = 0) :
    address + size ≤ 2 ^ 64 + miRoundDown address pageSize ∧
      2 ^ 64 + miRoundDown address pageSize < address + size + pageSize := by
  rw [freeSize, if_pos (by omega), miRoundUp, miRoundDown, uint64, uint64, uint64, pageSize] at hzero
  rw [miRoundDown, pageSize]
  omega

theorem freeRange_lt (htiled : Tiled space.vads)
    (h : freeRange grants m p space base size type = .ok (m', reply))
    (hs : ntSuccess reply.status = true) : base ≠ 0 ∧ base < kiUserSpaceLimit := by
  rw [freeRange] at h
  split at h
  · cases h
    exact absurd hs (by decide)
  case isFalse hbase =>
    split at h
    · cases h
      exact absurd hs (by decide)
    case h_2 vad hfind =>
      obtain ⟨hmem, -, hlt⟩ := miFindVad_some hfind
      exact ⟨hbase, hlt.trans_le (htiled.placed vad hmem).limit⟩

theorem freesNamed_of_not_misread (hspace : m.space p = some space) (htiled : Tiled space.vads)
    (hsmall : SmallAt space.vads (miRoundDown address pageSize)) (haddress : address < 2 ^ 64)
    (hsize : size < 2 ^ 64)
    (hread : ¬ Misread address size type) : FreesNamed grants m p space address size type := by
  refine ⟨fun m' reply h hs hne => ?_, fun hwraps hzero => ?_⟩
  · rw [miFreeVirtualMemory_eq] at h
    obtain ⟨hbase, hlt⟩ := freeRange_lt htiled h hs
    by_cases hzero : freeSize address size = 0
    · rcases freeSize_spec haddress hsize hne hbase (by omega) with
        ⟨-, hnonzero, -⟩ | ⟨hwraps, ⟨-, hread'⟩ | ⟨hpage, -⟩⟩
      · exact absurd hzero hnonzero
      · exact absurd ⟨hwraps, .inl hread'⟩ hread
      · rw [hzero] at hpage
        cases hpage
    · have hfreed := freeRange_freed hspace htiled hsmall (miRoundDown_dvd address)
        (freeSize_dvd address size) hzero h hs
      rcases freeSize_spec haddress hsize hne hbase hfreed.limit with
        ⟨-, -, hend⟩ | ⟨hwraps, ⟨hnone, -⟩ | ⟨hpage, hpast⟩⟩
      · rw [← hend]
        exact ⟨hfreed.confined, hfreed.named⟩
      · exact absurd hnone hzero
      · refine absurd ⟨hwraps, .inr ⟨hpast, hfreed.lowest, ?_, ?_⟩⟩ hread
        · have hlimit := hfreed.limit
          rwa [hpage] at hlimit
        · rcases hfreed.frees with htype | htype | htype | ⟨-, htwo⟩
          · exact .inl htype
          · exact .inr (.inl htype)
          · exact .inr (.inr htype)
          · rw [hpage, pageSize] at htwo
            omega
  · exact hread ⟨hwraps, .inl (freeSize_eq_zero haddress hsize hwraps hzero)⟩

def onePageVad (base : Nat) : Vad :=
  { miCreateVad base pageSize pageReadWrite with isPlaceholder := true }

def onePageSpace (base : Nat) : Space := { vads := [onePageVad base] }

def onePageMachine (base : Nat) : Machine where
  phys := ⟨[], fun _ _ => 0⟩
  spaces := [some (onePageSpace base)]
  sharedUserData := 1
  kernelPml4 _ := 0

theorem tiled_onePageSpace (hdvd : base % pageSize = 0) (hlowest : miLowestUserAddress ≤ base)
    (hlimit : base + pageSize ≤ kiUserSpaceLimit) : Tiled (onePageSpace base).vads := by
  have hsize : 0 < pageSize := by decide
  refine ⟨fun v hv => ?_, Intervals.laid_cons.mpr ⟨?_, fun _ hb => absurd hb not_mem_nil, Intervals.laid_nil⟩⟩
  · obtain rfl := mem_singleton.mp hv
    exact ⟨hdvd, Nat.mod_self pageSize, hsize, hlowest, hlimit⟩
  · change base < base + pageSize
    omega

theorem small_onePageSpace (base address : Nat) : SmallAt (onePageSpace base).vads address := by
  intro v hv
  obtain rfl := mem_singleton.mp (miFindVad_some hv).1
  change pageSize < 2 ^ 44
  decide

theorem miFindVad_onePageSpace (base : Nat) :
    miFindVad (onePageSpace base).vads base = some (onePageVad base) := by
  have hin : (onePageVad base).base ≤ base ∧ base < (onePageVad base).limit := by
    change base ≤ base ∧ base < base + pageSize
    exact ⟨le_refl _, Nat.lt_add_of_pos_right (by decide)⟩
  rw [onePageSpace, miFindVad, if_pos hin]

theorem miDecommitPages_onePage (phys : Physical) (table : PageTable) (base : Nat) :
    miDecommitPages base pageSize ⟨phys, table, onePageVad base⟩ =
      .ok ⟨phys, table, onePageVad base⟩ := by
  have hindex : (onePageVad base).index base = 0 := by
    rw [Vad.index]
    change ulong ((base - base) / pageSize) = 0
    rw [Nat.sub_self]
    rfl
  have hpage : decommitPage base ⟨phys, table, onePageVad base⟩ =
      .ok (⟨phys, table, onePageVad base⟩, statusSuccess) := by
    rw [decommitPage]
    exact if_pos (by rw [hindex]; rfl)
  rw [miDecommitPages, Nat.div_self (by decide), eachPage, hpage]
  rfl

theorem freeRange_onePage (hbase : base ≠ 0) (htype : type = memDecommit ∨ type = memRelease ∨
      type = memRelease ||| memPreservePlaceholder) :
    ∃ m' reply, freeRange {} (onePageMachine base) 0 (onePageSpace base) base pageSize type =
      .ok (m', reply) ∧ ntSuccess reply.status = true := by
  have hlimit : (onePageVad base).limit = base + pageSize := rfl
  have hpage : pageSize ≠ 0 := by decide
  rw [freeRange, if_neg hbase, miFindVad_onePageSpace]
  dsimp only
  have hprivate : (onePageVad base).type = .memPrivate := rfl
  have hok : ntSuccess statusSuccess = true := by decide
  have hbind : ∀ {α β : Type} (a : α) (f : α → Except Halt β), (Except.ok a >>= f) = f a :=
    fun _ _ => rfl
  rw [if_neg (not_not_intro hprivate), if_neg fun h => hpage h.1, if_neg (by rw [hlimit]; omega)]
  rcases htype with rfl | rfl | rfl
  · rw [if_pos rfl, if_pos hpage, miDecommitPages_onePage]
    exact ⟨_, _, rfl, hok⟩
  · rw [if_neg (by decide), if_pos rfl]
    have hcarve : miCarveVad {} (putVad (onePageSpace base).vads (onePageVad base)) (onePageVad base)
        base pageSize false =
          .ok (removeVad (putVad (onePageSpace base).vads (onePageVad base)) (onePageVad base), none,
            statusSuccess) := by
      have hhead : ¬ (onePageVad base).base < base := Nat.lt_irrefl base
      have htail : ¬ base + pageSize < (onePageVad base).limit := Nat.lt_irrefl _
      rw [miCarveVad_eq hprivate (show (onePageVad base).base ≤ base from le_refl base)
        (show base + pageSize ≤ (onePageVad base).limit from le_refl _) (by simp)]
      simp only [insertClone, decide_eq_true_iff, if_neg hhead, if_neg htail]
      rfl
    simp only [if_neg hpage, miDecommitPages_onePage, hbind, hcarve]
    exact ⟨_, _, rfl, by rw [if_pos hok]; exact hok⟩
  · rw [if_neg (by decide), if_neg (by decide), if_pos rfl,
      miPreservePlaceholder_eq hpage rfl (by rintro ⟨h, -⟩; cases h) hprivate,
      if_neg (show ¬ pageSize < (onePageVad base).size from Nat.lt_irrefl pageSize), emptyPlaceholder]
    have hw := miDecommitPages_onePage (onePageMachine base).phys (onePageSpace base).table base
    change ∃ m' reply, (miDecommitPages base pageSize ⟨(onePageMachine base).phys,
      (onePageSpace base).table, onePageVad base⟩ >>= _) = .ok (m', reply) ∧ _
    rw [hw]
    exact ⟨_, _, rfl, hok⟩

theorem not_named_of_wraps (htiled : Tiled space.vads) (hwraps : 2 ^ 64 < address + size)
    (htype : type ≠ memRelease ||| memCoalescePlaceholders) :
    ¬ Named space.vads type base (rangeEnd address size) := by
  rintro (⟨v, hv, -, hend⟩ | ⟨htype', -⟩)
  · have hlimit := (htiled.placed v hv).limit
    rw [rangeEnd, pageSize] at hend
    rw [kiUserSpaceLimit] at hlimit
    omega
  · exact htype htype'

theorem freeSize_onePage (haddress : address < 2 ^ 64) (hsize : size < 2 ^ 64)
    (hpast : 2 ^ 64 + miRoundDown address pageSize < address + size) :
    freeSize address size = pageSize := by
  rw [freeSize, if_pos (by omega), miRoundUp, miRoundDown, uint64, uint64, uint64, pageSize]
  rw [miRoundDown, pageSize] at hpast
  omega

theorem not_freesNamed_of_misread (haddress : address < 2 ^ 64) (hsize : size < 2 ^ 64)
    (hread : Misread address size type) :
    ∃ base, miLowestUserAddress ≤ base ∧ base + pageSize ≤ kiUserSpaceLimit ∧ base % pageSize = 0 ∧
      ¬ FreesNamed {} (onePageMachine base) 0 (onePageSpace base) address size type := by
  obtain ⟨hwraps, ⟨hle, hlt⟩ | ⟨hpast, hlowest, hlimit, htype⟩⟩ := hread
  · refine ⟨miLowestUserAddress, le_refl _, by decide, by decide, fun h => h.2 hwraps ?_⟩
    rw [freeSize, if_pos (by omega), miRoundUp, miRoundDown, uint64, uint64, uint64, pageSize]
    rw [miRoundDown, pageSize] at hle hlt
    omega
  · have hdvd := miRoundDown_dvd address
    refine ⟨miRoundDown address pageSize, hlowest, hlimit, hdvd, fun h => ?_⟩
    have hbase : miRoundDown address pageSize ≠ 0 := by
      rw [miLowestUserAddress] at hlowest
      omega
    obtain ⟨m', reply, hfree, hok⟩ := freeRange_onePage hbase htype
    have hrequest : miFreeVirtualMemory {} (onePageMachine (miRoundDown address pageSize)) 0
        (onePageSpace (miRoundDown address pageSize)) address size type = .ok (m', reply) := by
      rw [miFreeVirtualMemory_eq, freeSize_onePage haddress hsize hpast]
      exact hfree
    refine not_named_of_wraps (tiled_onePageSpace hdvd hlowest hlimit) hwraps ?_
      (h.1 m' reply hrequest hok (by omega)).2
    rcases htype with rfl | rfl | rfl <;> decide

end

/-- In every address space in which the request falls into no reservation of 16 TiB or more, a request to
free a size does what it names, exactly if it is not one of those whose end wraps into its first page or
the one before. -/
theorem miFreeVirtualMemory_named_iff (address size type : Nat) (haddress : address < 2 ^ 64)
    (hsize : size < 2 ^ 64) :
    (∀ grants m p space, m.space p = some space → Tiled space.vads →
      SmallAt space.vads (miRoundDown address pageSize) → FreesNamed grants m p space address size type) ↔ ¬ Misread address size type := by
  constructor
  · intro h hread
    obtain ⟨base, hlowest, hlimit, hdvd, hwrong⟩ := not_freesNamed_of_misread haddress hsize hread
    exact hwrong (h {} (onePageMachine base) 0 (onePageSpace base) rfl
      (tiled_onePageSpace hdvd hlowest hlimit) (small_onePageSpace base _))
  · intro hread grants m p space hspace htiled hsmall
    exact freesNamed_of_not_misread hspace htiled hsmall haddress hsize hread

/-- A page named by its address and size. -/
theorem miFreeVirtualMemory_named_page :
    FreesNamed {} (onePageMachine 0x20000) 0 (onePageSpace 0x20000) 0x20000 0x1000 memDecommit :=
  (miFreeVirtualMemory_named_iff 0x20000 0x1000 memDecommit (by decide) (by decide)).mpr
    (fun h => absurd h.1 (by decide)) {} (onePageMachine 0x20000) 0 (onePageSpace 0x20000) rfl
    (tiled_onePageSpace (by decide) (by decide) (by decide)) (small_onePageSpace _ _)

/-- The size `2^64 - 1` at the base of a reservation releases all of it. -/
theorem miFreeVirtualMemory_misread :
    freeSize 0x20000 (2 ^ 64 - 1) = 0 ∧
    (∃ m' reply, miFreeVirtualMemory {} (onePageMachine 0x20000) 0 (onePageSpace 0x20000) 0x20000
        (2 ^ 64 - 1) memRelease = .ok (m', reply) ∧ reply.status = statusSuccess ∧
        (m'.space 0).map (·.vads) = some []) ∧
    ¬ FreesNamed {} (onePageMachine 0x20000) 0 (onePageSpace 0x20000) 0x20000 (2 ^ 64 - 1)
      memRelease := by
  refine ⟨by decide, ?_, fun h => h.2 (by decide) (by decide)⟩
  have hrun : (match miFreeVirtualMemory {} (onePageMachine 0x20000) 0 (onePageSpace 0x20000) 0x20000
      (2 ^ 64 - 1) memRelease with
      | .ok (m', reply) => decide (reply.status = statusSuccess) &&
        decide ((m'.space 0).map (·.vads) = some [])
      | .error _ => false) = true := by
    decide +kernel
  split at hrun
  case h_1 m' reply heq =>
    rw [Bool.and_eq_true, decide_eq_true_iff, decide_eq_true_iff] at hrun
    exact ⟨m', reply, heq, hrun⟩
  case h_2 => cases hrun

end Proskrnl.Mm
