import Proskrnl.Mm.FreeRange
import Proskrnl.Mm.Rollback

/-!
# Requests that fail

What the engines of `kernel/mm/virtual.c` leave behind when they refuse a request or run out of memory.
All of them put back what they did, except a `MEM_RELEASE` of a part of a reservation, which decommits
before `MiCarveVad` asks the pool for the pieces, and a `MEM_COMMIT` that replaces a placeholder with
committed pages, which `MiDecommitPages` takes back together with the new ones.
-/

namespace Proskrnl.Mm
open List

open Intervals (Free)
open Outcome (bind_eq_ok)

inductive Request
  | free (address size type : Nat)
  | protect (address size newProtect : Nat)
  | replacePlaceholder (base size type protect : Nat) (noCache : Bool)
  | allocate (r : AllocationRequest)
  | commitReserve (s : Nat) (body : Section) (vad : Vad) (base size protect : Nat)

/-- What the callers see to: `MiReplacePlaceholder` is given a protection that passed its check, the
allocation is one that reserves, and its alignment is one that `MiCaptureExtendedParams` accepts. -/
def Request.Admitted : Request → Prop
  | .replacePlaceholder _ _ _ word _ => ntSuccess (miCheckPageProtect word) = true
  | .allocate r => (hasFlag r.type memReserve = true ∨ r.base = 0) ∧
      (r.align = 0 ∨ ∃ k, 16 ≤ k ∧ k < 64 ∧ r.align = 2 ^ k)
  | _ => True

def Request.run (grants : Grants) (m : Machine) (p : Nat) (space : Space) :
    Request → Except Halt (Machine × NtStatus)
  | .free address size type => replied (miFreeVirtualMemory grants m p space address size type)
  | .protect address size newProtect =>
    replied (miProtectVirtualMemory m p space address size newProtect)
  | .replacePlaceholder base size type word noCache =>
    replied (miReplacePlaceholder grants m p space base size type word noCache)
  | .allocate r => replied (miAllocateVirtualMemoryEx grants m p space r)
  | .commitReserve s body vad base size word =>
    miCommitReserveSectionRange grants m s body p vad base size word

/-- The reservations and page tables of every process with their records, the ledgers of the sections
and the contents of every frame in use are as they were. -/
structure Unchanged (m m' : Machine) : Prop where
  spaces : m'.spaces = m.spaces
  sections : m'.sections = m.sections
  memory : ∀ frame, frame ∉ m.phys.free → m'.phys.memory frame = m.phys.memory frame

def FailsCleanly (grants : Grants) (m : Machine) (p : Nat) (space : Space) (request : Request) : Prop :=
  ∀ m' status, request.run grants m p space = .ok (m', status) → ntSuccess status = false →
    Unchanged m m'

/-- What every address space keeps: a page of a private reservation has a leaf exactly when it is
recorded as committed, and a page of no reservation has none. -/
structure Kept (space : Space) : Prop where
  tiled : Tiled space.vads
  small : Small space.vads
  records : ∀ vad ∈ space.vads, vad.pageProtect.length = vad.size / pageSize
  leaves : ∀ vad ∈ space.vads, vad.type = .memPrivate → ∀ page, vad.Holds page →
    (vad.protectAt (vad.index page) ≠ 0 ↔ (space.table page).isSome)
  unreserved : ∀ page, (∀ vad ∈ space.vads, ¬ vad.Holds page) → space.table page = none

def Vad.HasCommitted (vad : Vad) (base size : Nat) : Prop :=
  ∃ k < size / pageSize, vad.protectAt (vad.index (pageAt base k)) ≠ 0

/-- The pool refuses a piece of a reservation outside a range. -/
def NoPiece (grants : Grants) (vad : Vad) (base size : Nat) : Prop :=
  (vad.base < base ∧ grants.head = false) ∨ (base + size < vad.limit ∧ grants.tail = false)

/-- The size that `MEM_RELEASE` goes on with. -/
def releaseSize (vad : Vad) (size : Nat) : Nat := if size = 0 then vad.size else size

/-- A release of a part of a private reservation with committed pages in it, while the pool refuses the
piece before or behind it. -/
structure LosesReleased (grants : Grants) (space : Space) (base size type : Nat) (vad : Vad) : Prop where
  releases : type = memRelease
  base_ne : base ≠ 0
  found : miFindVad space.vads base = some vad
  private_ : vad.type = .memPrivate
  atBase : size = 0 → base = vad.base
  inside : size ≤ vad.limit - base
  noPiece : NoPiece grants vad base (releaseSize vad size)
  committed : vad.HasCommitted base (releaseSize vad size)

/-- A commit in the place of a free placeholder with committed pages, while there are no page tables or
too few frames for the other pages. The frames are those that are left once `MiChargeUserTables` has its
tables. -/
structure LosesPlaceholder (grants : Grants) (phys : Physical) (space : Space) (base size type : Nat)
    (vad : Vad) : Prop where
  found : miFindVad space.vads base = some vad
  base_eq : vad.base = base
  size_eq : vad.size = size
  empty : vad.isFreePlaceholder = true
  private_ : vad.type = .memPrivate
  watch : hasFlag type memWriteWatch = true → grants.watch = true
  commits : hasFlag type memCommit = true
  committed : vad.HasCommitted base size
  runsOut : grants.tables = false ∨ phys.free.length < vad.uncommitted base (size / pageSize)

/-- The requests whose failure takes pages away. -/
def Loses (grants : Grants) (phys : Physical) (space : Space) : Request → Prop
  | .free address size type => ∃ vad, LosesReleased grants space (miRoundDown address pageSize)
      (freeSize address size) type vad
  | .replacePlaceholder base size type _ _ =>
    ∃ vad, LosesPlaceholder grants phys space base size type vad
  | .allocate r => allocationStatus r = statusSuccess ∧ hasFlag r.type memReset = false ∧
      ntSuccess (miCheckPageProtect (miStoredPageProtect r.protect)) = true ∧
      hasFlag r.type memReplacePlaceholder = true ∧
      ∃ vad, LosesPlaceholder grants phys space (roundedRange r).1 (roundedRange r).2 r.type vad
  | _ => False

variable {grants : Grants} {m m' : Machine} {p : Nat} {space : Space} {vads vads' : List Vad}
  {vad : Vad} {base size type protect : Nat} {noCache : Bool} {reply : Reply} {status : NtStatus}

/-! ## States that are put back -/

theorem Unchanged.refl (m : Machine) : Unchanged m m := ⟨rfl, rfl, fun _ _ => rfl⟩

theorem setSpace_self (h : m.space p = some space) : m.spaces.set p (some space) = m.spaces := by
  have hget : m.spaces[p]? = some (some space) := Option.join_eq_some_iff.mp h
  obtain ⟨hlt, hp⟩ := List.getElem?_eq_some_iff.mp hget
  rw [← hp]
  exact set_getElem_self hlt

theorem unchanged_setSpace {phys : Physical} (h : m.space p = some space)
    (hmemory : ∀ frame, frame ∉ m.phys.free → phys.memory frame = m.phys.memory frame) :
    Unchanged m ({ m with phys }.setSpace p space) :=
  ⟨setSpace_self h, rfl, hmemory⟩

theorem not_unchanged_setSpace {phys : Physical} {space' : Space} {page : Nat} (h : m.space p = some space)
    (hpage : (space.table page).isSome) (hpage' : space'.table page = none) :
    ¬ Unchanged m ({ m with phys }.setSpace p space') := by
  intro hsame
  have hspace : Machine.space ({ m with phys }.setSpace p space') p = some space' :=
    space_setSpace (show Machine.space { m with phys } p = some space from h)
  rw [Machine.space, hsame.spaces] at hspace
  obtain rfl := Option.some.inj (h.symm.trans hspace)
  rw [hpage'] at hpage
  cases hpage

theorem removeVad_miInsertVad (h : ∀ v ∈ vads, v.base ≠ vad.base) :
    removeVad (miInsertVad vads vad) vad = vads := by
  induction vads with
  | nil =>
    rw [miInsertVad, List.orderedInsert, removeVad, filter_cons_of_neg (by simp)]
    rfl
  | cons v vads ih =>
    have hv := h v mem_cons_self
    have hvads := ih fun u hu => h u (.tail _ hu)
    have hself : removeVad vads vad = vads :=
      filter_eq_self.mpr fun u hu => decide_eq_true (h u (.tail _ hu))
    rw [miInsertVad, List.orderedInsert]
    split
    · rw [removeVad, filter_cons_of_neg (by simp), filter_cons_of_pos (by simpa using hv)]
      exact congrArg _ hself
    · rw [removeVad, filter_cons_of_pos (by simpa using hv)]
      exact congrArg _ hvads

theorem miCheckPageProtect_ne_zero (h : ntSuccess (miCheckPageProtect protect) = true) : protect ≠ 0 := by
  rintro rfl
  exact absurd h (by decide)

theorem Kept.matched (h : Kept space) (hmem : vad ∈ space.vads) (hprivate : vad.type = .memPrivate)
    (phys : Physical) : Matched vad.Holds ⟨phys, space.table, vad⟩ := by
  have hplaced := h.tiled.placed vad hmem
  have hsmall := h.small vad hmem
  refine ⟨fun page hpage => ?_, h.leaves vad hmem hprivate, fun page page' hpage hpage' heq => ?_,
    fun page hpage => ?_⟩
  · have hlt := hpage.lt hplaced
    rw [kiUserSpaceLimit] at hlt
    omega
  · by_contra hne
    exact hpage.index_ne hpage' hplaced.base_dvd hsmall hne heq
  · change vad.index page < vad.pageProtect.length
    rw [h.records vad hmem, Vad.index_eq hsmall hpage.limit]
    have hlimit := hpage.limit
    have hsize := hplaced.size_dvd
    have hbase := hpage.base
    rw [Vad.limit] at hlimit
    rw [pageSize] at hsize ⊢
    omega

theorem Vad.holds_pageAt (hbase : base % pageSize = 0) (hlow : vad.base ≤ base)
    (hhigh : base + size ≤ vad.limit) {k : Nat} (hk : k < size / pageSize) :
    vad.Holds (pageAt base k) := by
  refine ⟨?_, ?_, ?_⟩
  · rw [pageAt]
    omega
  · rw [pageAt]
    rw [pageSize] at hk ⊢
    omega
  · rw [pageAt, Nat.add_mul_mod_self_right, hbase]

/-! ## Freeing -/

theorem miCarveVad_failed {carved : Option Vad}
    (h : miCarveVad grants vads vad base size false = .ok (vads', carved, status))
    (hs : ntSuccess status = false) : vads' = vads ∧ NoPiece grants vad base size := by
  by_cases hshape : vad.type = .memPrivate ∧ vad.base ≤ base ∧ base + size ≤ vad.limit
  · obtain ⟨htype, hlow, hhigh⟩ := hshape
    by_cases hgrants : (vad.base < base ∧ !grants.head) ∨ (base + size < vad.limit ∧ !grants.tail) ∨
        (false ∧ !grants.carved)
    · rw [miCarveVad, if_neg (not_not_intro htype), if_neg (by omega), if_pos hgrants] at h
      cases h
      refine ⟨rfl, ?_⟩
      simpa [NoPiece] using hgrants
    · rw [miCarveVad_eq htype hlow hhigh (by simpa using hgrants)] at h
      obtain ⟨list, -, h⟩ := bind_eq_ok h
      obtain ⟨list', -, h⟩ := bind_eq_ok h
      cases h
      exact absurd hs (by decide)
  · rw [miCarveVad] at h
    split at h
    · cases h
    case isFalse htype =>
      split at h
      · cases h
      case isFalse hinside => exact absurd ⟨Decidable.not_not.mp htype, by omega, by omega⟩ hshape

theorem miCarveVad_refused (htype : vad.type = .memPrivate) (hlow : vad.base ≤ base)
    (hhigh : base + size ≤ vad.limit) (h : NoPiece grants vad base size) :
    miCarveVad grants vads vad base size false = .ok (vads, none, statusNoMemory) := by
  rw [miCarveVad, if_neg (not_not_intro htype), if_neg (by omega), if_pos]
  simpa [NoPiece] using h

theorem NoPiece.congr {vad' : Vad} (h : NoPiece grants vad' base size)
    (hvad : ∃ pageProtect, vad' = { vad with pageProtect }) : NoPiece grants vad base size := by
  obtain ⟨protects, rfl⟩ := hvad
  exact h

theorem ntSuccess_statusSuccess : ¬ ntSuccess statusSuccess = false := by decide

theorem emptyPlaceholder_succeeds (h : emptyPlaceholder m p space base size vads vad = .ok (m', reply)) :
    ¬ ntSuccess reply.status = false := by
  rw [emptyPlaceholder] at h
  obtain ⟨w, -, h⟩ := bind_eq_ok h
  cases h
  exact ntSuccess_statusSuccess

theorem miPreservePlaceholder_failed
    (h : miPreservePlaceholder grants m p space vad base size = .ok (m', reply))
    (hs : ntSuccess reply.status = false) : m' = m := by
  by_cases hshape : size ≠ 0 ∧ vad.isPlaceholder = true ∧
      ¬ (vad.isFreePlaceholder = true ∧ size = vad.size) ∧ vad.type = .memPrivate
  · obtain ⟨hsize, hplaceholder, hpart, htype⟩ := hshape
    rw [miPreservePlaceholder_eq hsize hplaceholder hpart htype] at h
    split at h
    · obtain ⟨⟨vads, carved, status⟩, -, h⟩ := bind_eq_ok h
      cases carved with
      | none =>
        cases h
        rfl
      | some carved => exact absurd hs (emptyPlaceholder_succeeds h)
    · exact absurd hs (emptyPlaceholder_succeeds h)
  · rw [miPreservePlaceholder] at h
    split at h
    · cases h
      rfl
    case isFalse hsize =>
    split at h
    · cases h
      rfl
    case isFalse hplaceholder =>
    split at h
    · cases h
      rfl
    case isFalse hpart =>
    split at h
    · cases h
    case isFalse htype =>
      exact absurd ⟨hsize, by simpa using hplaceholder, hpart, Decidable.not_not.mp htype⟩ hshape

theorem miCoalescePlaceholders_failed
    (h : miCoalescePlaceholders grants m p space vad base size = .ok (m', reply))
    (hs : ntSuccess reply.status = false) : m' = m := by
  rw [miCoalescePlaceholders] at h
  split at h
  · cases h
    rfl
  split at h
  · cases h
    rfl
  dsimp only at h
  split at h
  · cases h
  split at h
  · cases h
    rfl
  split at h
  · cases h
  split at h
  · cases h
    rfl
  split at h
  · cases h
  split at h
  · cases h
  · cases h
    exact absurd hs ntSuccess_statusSuccess

theorem freeRange_failed (h : freeRange grants m p space base size type = .ok (m', reply))
    (hs : ntSuccess reply.status = false) :
    m' = m ∨ ∃ vad w, (vad.HasCommitted base (releaseSize vad size) →
        LosesReleased grants space base size type vad) ∧ miFindVad space.vads base = some vad ∧
      miDecommitPages base (releaseSize vad size) ⟨m.phys, space.table, vad⟩ = .ok w ∧
      m' = m.putWalk p space w := by
  rw [freeRange] at h
  split at h
  · cases h
    exact .inl rfl
  case isFalse hbase =>
  split at h
  · cases h
    exact .inl rfl
  case h_2 vad hfind =>
  split at h
  · cases h
    exact .inl rfl
  case isFalse hprivate =>
  split at h
  · cases h
    exact .inl rfl
  case isFalse hatBase =>
  split at h
  · cases h
    exact .inl rfl
  case isFalse hroom =>
  split at h
  · obtain ⟨w, -, h⟩ := bind_eq_ok h
    cases h
    exact absurd hs ntSuccess_statusSuccess
  split at h
  case isTrue htype =>
    obtain ⟨w, hw, h⟩ := bind_eq_ok h
    obtain ⟨⟨vads, carved, status⟩, hcarve, h⟩ := bind_eq_ok h
    cases h
    have hfailed : ntSuccess status = false := by
      by_contra hok
      rw [if_pos (Bool.of_not_eq_false hok)] at hs
      exact hok hs
    obtain ⟨hvads, hpiece⟩ := miCarveVad_failed hcarve hfailed
    have hinside : size ≤ vad.limit - base := by
      by_contra hlt
      exact hroom ⟨Nat.lt_of_not_le hlt, by rw [htype]; decide⟩
    refine .inr ⟨vad, w, fun hcommitted => ⟨htype, hbase, hfind, Decidable.not_not.mp hprivate,
      fun hzero => ?_, hinside, hpiece.congr (miDecommitPages_spec hw).vad, hcommitted⟩, hfind, hw, ?_⟩
    · by_contra hne
      exact hatBase ⟨hzero, hne⟩
    · rw [hvads]
      rfl
  case isFalse =>
  split at h
  · exact .inl (miPreservePlaceholder_failed h hs)
  split at h
  · exact .inl (miCoalescePlaceholders_failed h hs)
  split at h
  · cases h
    exact .inl rfl
  · cases h
    exact .inl rfl

variable {address : Nat} {r : AllocationRequest}

theorem free_failsCleanly (hspace : m.space p = some space) (hkept : Kept space)
    (hloses : ¬ Loses grants m.phys space (.free address size type)) :
    FailsCleanly grants m p space (.free address size type) := by
  intro m' status hrun hs
  obtain ⟨⟨m1, reply⟩, h, hpair⟩ := Outcome.map_eq_ok hrun
  cases hpair
  rw [miFreeVirtualMemory_eq] at h
  rcases freeRange_failed h hs with rfl | ⟨vad, w, hcommitted, hfind, hw, rfl⟩
  · exact .refl _
  · have hnone : ∀ k < releaseSize vad (freeSize address size) / pageSize,
        vad.protectAt (vad.index (pageAt (miRoundDown address pageSize) k)) = 0 := by
      intro k hk
      by_contra hne
      exact hloses ⟨vad, hcommitted ⟨k, hk, hne⟩⟩
    rw [miDecommitPages_none hnone] at hw
    cases hw
    have hsame : ({ space with
        vads := putVad space.vads vad, table := space.table } : Space) = space := by
      rw [hkept.tiled.putVad_self (miFindVad_some hfind).1]
    rw [Machine.putWalk, hsame]
    exact unchanged_setSpace hspace fun _ _ => rfl

theorem LosesReleased.not_failsCleanly (hspace : m.space p = some space)
    (hkept : Kept space) (h : LosesReleased grants space (miRoundDown address pageSize)
      (freeSize address size) type vad) : ¬ FailsCleanly grants m p space (.free address size type) := by
  intro hclean
  obtain ⟨hmem, hlow, hlt⟩ := miFindVad_some h.found
  have hdvd := miRoundDown_dvd address
  have hhigh : miRoundDown address pageSize + releaseSize vad (freeSize address size) ≤ vad.limit := by
    have hinside := h.inside
    rw [releaseSize]
    split
    case isTrue hzero =>
      rw [h.atBase hzero]
      exact le_refl _
    case isFalse => omega
  have hpages : ∀ k < releaseSize vad (freeSize address size) / pageSize,
      vad.Holds (pageAt (miRoundDown address pageSize) k) := fun k hk =>
    Vad.holds_pageAt hdvd hlow hhigh hk
  have hmatched := hkept.matched hmem h.private_ m.phys
  obtain ⟨w, hw, hgone⟩ := hmatched.decommit hpages
  obtain ⟨protects, hvad⟩ := (miDecommitPages_spec hw).vad
  have hcarve : miCarveVad grants (putVad space.vads w.vad) w.vad (miRoundDown address pageSize)
      (releaseSize vad (freeSize address size)) false =
        .ok (putVad space.vads w.vad, none, statusNoMemory) := by
    rw [hvad]
    exact miCarveVad_refused h.private_ hlow hhigh h.noPiece
  have hrun : miFreeVirtualMemory grants m p space address size type =
      .ok (m.putWalk p space w, { status := statusNoMemory }) := by
    rw [miFreeVirtualMemory_eq, freeRange, if_neg h.base_ne, h.found]
    dsimp only
    have hatBase : ¬ (freeSize address size = 0 ∧ miRoundDown address pageSize ≠ vad.base) :=
      fun hboth => hboth.2 (h.atBase hboth.1)
    have hroom : ¬ (vad.limit - miRoundDown address pageSize < freeSize address size ∧
        (!hasFlag type memCoalescePlaceholders) = true) := fun hboth =>
      absurd h.inside (Nat.not_le.mpr hboth.1)
    rw [if_neg (not_not_intro h.private_), if_neg hatBase, if_neg hroom, h.releases,
      if_neg (by decide), if_pos rfl]
    rw [releaseSize] at hw hcarve
    rw [hw]
    dsimp only [bind, Except.bind]
    rw [hcarve]
    rfl
  have hsame := hclean _ statusNoMemory (by rw [Request.run, hrun]; rfl) (by decide)
  obtain ⟨k, hk, hne⟩ := h.committed
  exact not_unchanged_setSpace hspace ((hmatched.leaf _ (hpages k hk)).mp hne) (hgone k hk) hsame

/-! ## Placeholders -/

def replacedVad (vad : Vad) (size type protect : Nat) (noCache : Bool) : Vad :=
  let watchDirty := if hasFlag type memWriteWatch then
    some (List.replicate (size / pageSize) false) else none
  { vad with
    watchDirty
    writeWatch := watchDirty.isSome
    allocationProtect := protect
    noCache
    isPlaceholder := true
    isFreePlaceholder := hasFlag type memReservePlaceholder }

def replacedWalk (phys : Physical) (space : Space) (vad : Vad) (size type protect : Nat)
    (noCache : Bool) : Walk :=
  ⟨phys, space.table, replacedVad vad size type protect noCache⟩

theorem miReplacePlaceholder_eq (hfind : miFindVad space.vads base = some vad) (hbase : vad.base = base)
    (hsize : vad.size = size) (hempty : vad.isFreePlaceholder = true)
    (hprivate : vad.type = .memPrivate)
    (hwatch : hasFlag type memWriteWatch = true → grants.watch = true)
    (hcommits : hasFlag type memCommit = true) :
    miReplacePlaceholder grants m p space base size type protect noCache =
      miCommitPages grants.tables base size protect
          (replacedWalk m.phys space vad size type protect noCache) >>= fun r =>
        if ntSuccess r.2 then .ok (m.putWalk p space r.1, { status := statusSuccess, base, size })
        else miDecommitPages base size r.1 >>= fun w =>
          .ok (m.putWalk p space { w with vad := { vad with pageProtect := w.vad.pageProtect } },
            { status := r.2 }) := by
  have hrange : ¬ (vad.base ≠ base ∨ vad.size ≠ size) := by
    rintro (hne | hne)
    · exact hne hbase
    · exact hne hsize
  have hgranted : ¬ (hasFlag type memWriteWatch = true ∧ (!grants.watch) = true) := by
    rintro ⟨hflag, hrefused⟩
    rw [hwatch hflag] at hrefused
    cases hrefused
  rw [miReplacePlaceholder, hfind]
  dsimp only
  rw [if_neg hrange, if_neg (by rw [hempty]; decide), if_neg (not_not_intro hprivate), if_neg hgranted,
    if_pos hcommits]
  rfl

theorem Kept.matched_replaced (h : Kept space) (hmem : vad ∈ space.vads)
    (hprivate : vad.type = .memPrivate) (phys : Physical) (size type protect : Nat) (noCache : Bool) :
    Matched vad.Holds (replacedWalk phys space vad size type protect noCache) := by
  obtain ⟨hcanonical, hleaf, hapart, hlength⟩ := h.matched hmem hprivate phys
  exact ⟨hcanonical, hleaf, hapart, hlength⟩

theorem miReplacePlaceholder_failed
    (h : miReplacePlaceholder grants m p space base size type protect noCache = .ok (m', reply))
    (hs : ntSuccess reply.status = false) :
    m' = m ∨ ∃ vad w w', miFindVad space.vads base = some vad ∧ vad.base = base ∧ vad.size = size ∧
      vad.isFreePlaceholder = true ∧ vad.type = .memPrivate ∧
      (hasFlag type memWriteWatch = true → grants.watch = true) ∧ hasFlag type memCommit = true ∧
      miCommitPages grants.tables base size protect
        (replacedWalk m.phys space vad size type protect noCache) = .ok (w, reply.status) ∧
      miDecommitPages base size w = .ok w' ∧
      m' = m.putWalk p space { w' with vad := { vad with pageProtect := w'.vad.pageProtect } } := by
  by_cases hshape : ∃ vad, miFindVad space.vads base = some vad ∧ vad.base = base ∧ vad.size = size ∧
      vad.isFreePlaceholder = true ∧ vad.type = .memPrivate ∧
      (hasFlag type memWriteWatch = true → grants.watch = true) ∧ hasFlag type memCommit = true
  · obtain ⟨vad, hfind, hbase, hsize, hempty, hprivate, hwatch, hcommits⟩ := hshape
    rw [miReplacePlaceholder_eq hfind hbase hsize hempty hprivate hwatch hcommits] at h
    obtain ⟨⟨w, status⟩, hcommit, h⟩ := bind_eq_ok h
    dsimp only at h
    split at h
    · cases h
      exact absurd hs ntSuccess_statusSuccess
    · obtain ⟨w', hdecommit, h⟩ := bind_eq_ok h
      cases h
      exact .inr ⟨vad, w, w', hfind, hbase, hsize, hempty, hprivate, hwatch, hcommits, hcommit,
        hdecommit, rfl⟩
  · rw [miReplacePlaceholder] at h
    split at h
    · cases h
      exact .inl rfl
    case h_2 vad hfind =>
    split at h
    · cases h
      exact .inl rfl
    case isFalse hrange =>
    split at h
    · cases h
      exact .inl rfl
    case isFalse hempty =>
    split at h
    · cases h
    case isFalse hprivate =>
    split at h
    · cases h
      exact .inl rfl
    case isFalse hwatch =>
    dsimp only at h
    split at h
    case isTrue hcommits =>
      obtain ⟨hbase, hsize⟩ := not_or.mp hrange
      refine absurd ⟨vad, hfind, Decidable.not_not.mp hbase, Decidable.not_not.mp hsize,
        by simpa using hempty, Decidable.not_not.mp hprivate, fun hflag => ?_, hcommits⟩ hshape
      by_contra hrefused
      exact hwatch ⟨hflag, by simpa using hrefused⟩
    case isFalse =>
      cases h
      exact absurd hs ntSuccess_statusSuccess

theorem miReplacePlaceholder_unchanged (hspace : m.space p = some space) (hkept : Kept space)
    (hprotect : protect ≠ 0)
    (hloses : ¬ ∃ vad, LosesPlaceholder grants m.phys space base size type vad)
    (h : miReplacePlaceholder grants m p space base size type protect noCache = .ok (m', reply))
    (hs : ntSuccess reply.status = false) : Unchanged m m' := by
  rcases miReplacePlaceholder_failed h hs with rfl |
    ⟨vad, w, w', hfind, rfl, rfl, hempty, hprivate, hwatch, hcommits, hcommit, hdecommit, rfl⟩
  · exact .refl _
  have hmem := (miFindVad_some hfind).1
  have hmatched := hkept.matched_replaced hmem hprivate m.phys vad.size type protect noCache
  have hpages : ∀ k < vad.size / pageSize, vad.Holds (pageAt vad.base k) := fun k hk =>
    Vad.holds_pageAt (hkept.tiled.placed vad hmem).base_dvd (le_refl _) (le_refl _) hk
  -- the commit has run out, so no page was committed before
  have hrunsOut : grants.tables = false ∨
      m.phys.free.length < vad.uncommitted vad.base (vad.size / pageSize) := by
    rcases hmatched.commit_status hpages hprotect hcommit with ⟨hstatus, -⟩ | ⟨-, hout⟩
    · rw [hstatus] at hs
      exact absurd hs ntSuccess_statusSuccess
    · exact hout
  have hzero : ∀ k < vad.size / pageSize, vad.protectAt (vad.index (pageAt vad.base k)) = 0 := by
    intro k hk
    by_contra hne
    exact hloses ⟨vad, hfind, rfl, rfl, hempty, hprivate, hwatch, hcommits, ⟨k, hk, hne⟩, hrunsOut⟩
  obtain ⟨htable, hvad, hmemory⟩ := commit_decommit_undone hprotect (fun k hk => by
    rw [← Option.not_isSome_iff_eq_none, ← hmatched.leaf _ (hpages k hk)]
    exact fun hne => hne (hzero k hk)) hzero (fun k hk => hmatched.length _ (hpages k hk)) hcommit
    hdecommit
  have hsame : ({ space with
      vads := putVad space.vads { vad with pageProtect := w'.vad.pageProtect },
      table := w'.table } : Space) = space := by
    have hprotects : w'.vad.pageProtect = vad.pageProtect := by
      rw [hvad]
      rfl
    rw [htable, hprotects, hkept.tiled.putVad_self hmem]
    rfl
  rw [Machine.putWalk, hsame]
  exact unchanged_setSpace hspace hmemory

theorem LosesPlaceholder.changes (hspace : m.space p = some space) (hkept : Kept space)
    (hprotect : protect ≠ 0) (noCache : Bool)
    (h : LosesPlaceholder grants m.phys space base size type vad) :
    ∃ m' reply, miReplacePlaceholder grants m p space base size type protect noCache = .ok (m', reply) ∧
      ntSuccess reply.status = false ∧ ¬ Unchanged m m' := by
  have hmem := (miFindVad_some h.found).1
  have hmatched := hkept.matched_replaced hmem h.private_ m.phys size type protect noCache
  have hpages : ∀ k < size / pageSize, vad.Holds (pageAt base k) := by
    intro k hk
    rw [← h.base_eq]
    rw [← h.size_eq] at hk
    exact Vad.holds_pageAt (hkept.tiled.placed vad hmem).base_dvd (le_refl _) (le_refl _) hk
  obtain ⟨w, status, hcommit, hw⟩ := hmatched.commit hpages hprotect grants.tables
  obtain ⟨w', hdecommit, hgone⟩ := hw.decommit hpages
  have hfailed : ntSuccess status = false := by
    rcases hmatched.commit_status hpages hprotect hcommit with ⟨-, htables, hle⟩ | ⟨rfl, -⟩
    · rcases h.runsOut with hrefused | hlt
      · rw [hrefused] at htables
        cases htables
      · exact absurd hlt (Nat.not_lt.mpr hle)
    · decide
  refine ⟨m.putWalk p space { w' with vad := { vad with pageProtect := w'.vad.pageProtect } },
    { status }, ?_, hfailed, ?_⟩
  · rw [miReplacePlaceholder_eq h.found h.base_eq h.size_eq h.empty h.private_ h.watch h.commits, hcommit]
    change (if ntSuccess status then _ else _) = _
    rw [if_neg (by rw [hfailed]; decide), hdecommit]
    rfl
  · obtain ⟨k, hk, hne⟩ := h.committed
    exact not_unchanged_setSpace hspace ((hmatched.leaf _ (hpages k hk)).mp hne) (hgone k hk)

/-! ## Reservations -/

def reservedVad (base size type protect : Nat) (noCache : Bool) : Vad :=
  { miCreateVad base size protect with
    noCache
    writeWatch := hasFlag type memWriteWatch
    watchDirty := if hasFlag type memWriteWatch then
      some (List.replicate (size / pageSize) false) else none
    isPlaceholder := hasFlag type memReservePlaceholder
    isFreePlaceholder := hasFlag type memReservePlaceholder }

theorem reserveRange_failed
    (h : reserveRange grants m p space base size type protect noCache = .ok (m', reply))
    (hs : ntSuccess reply.status = false) :
    m' = m ∨ ∃ w w', miCommitPages grants.tables base size protect
        ⟨m.phys, space.table, reservedVad base size type protect noCache⟩ = .ok (w, reply.status) ∧
      miDecommitPages base size w = .ok w' ∧
      miUnlinkAndFreeVad { m with phys := w'.phys } p
        { space with
          vads := miInsertVad space.vads (reservedVad base size type protect noCache)
          table := w'.table } w'.vad = .ok m' := by
  rw [reserveRange] at h
  split at h
  · cases h
    exact .inl rfl
  dsimp only at h
  split at h
  · obtain ⟨⟨w, status⟩, hcommit, h⟩ := bind_eq_ok h
    dsimp only at h
    split at h
    · cases h
      exact absurd hs ntSuccess_statusSuccess
    · obtain ⟨w', hdecommit, h⟩ := bind_eq_ok h
      obtain ⟨m1, hunlink, h⟩ := bind_eq_ok h
      cases h
      exact .inr ⟨w, w', hcommit, hdecommit, hunlink⟩
  · cases h
    exact absurd hs ntSuccess_statusSuccess

theorem reserveRange_unchanged (hspace : m.space p = some space) (hkept : Kept space)
    (hprotect : protect ≠ 0) (hsize : size ≠ 0)
    (hfree : Free Vad.base Vad.limit space.vads base (base + size))
    (h : reserveRange grants m p space base size type protect noCache = .ok (m', reply))
    (hs : ntSuccess reply.status = false) : Unchanged m m' := by
  rcases reserveRange_failed h hs with rfl | ⟨w, w', hcommit, hdecommit, hunlink⟩
  · exact .refl _
  have hnone : ∀ k < size / pageSize, space.table (pageAt base k) = none := by
    intro k hk
    refine hkept.unreserved _ fun v hv hholds => ?_
    have hlow := hholds.base
    have hhigh := hholds.limit
    have hin : pageAt base k < base + size := by
      rw [pageAt]
      rw [pageSize] at hk ⊢
      omega
    rcases hfree v hv with hapart | hapart
    · have hfrom : base ≤ pageAt base k := Nat.le_add_right _ _
      omega
    · omega
  have hindex : ∀ k < size / pageSize,
      (reservedVad base size type protect noCache).index (pageAt base k) < size / pageSize := by
    intro k hk
    have hk' : (pageAt base k - base) / pageSize = k := by
      rw [pageAt, Nat.add_sub_cancel_left]
      exact Nat.mul_div_cancel _ (by decide)
    change ulong ((pageAt base k - base) / pageSize) < size / pageSize
    rw [hk']
    exact lt_of_le_of_lt (Nat.mod_le _ _) hk
  obtain ⟨htable, hvad, hmemory⟩ := commit_decommit_undone hprotect hnone (fun k hk => by
    change (List.replicate (size / pageSize) 0).getD _ 0 = 0
    rw [getD_eq_getElem?_getD, getElem?_replicate]
    split <;> rfl) (fun k hk => by
    change _ < (List.replicate (size / pageSize) 0).length
    rw [length_replicate]
    exact hindex k hk) hcommit hdecommit
  have hfresh : ∀ v ∈ space.vads, v.base ≠ base := by
    intro v hv heq
    have hlt := (hkept.tiled.placed v hv).base_lt_limit
    rcases hfree v hv with hapart | hapart <;> omega
  rw [hvad, htable] at hunlink
  cases hunlink
  have hsame : ({ space with
      vads := removeVad (miInsertVad space.vads (reservedVad base size type protect noCache))
        (reservedVad base size type protect noCache)
      table := space.table } : Space) = space := by
    rw [removeVad_miInsertVad hfresh]
  rw [hsame]
  exact unchanged_setSpace hspace hmemory

/-! ## Every request -/

theorem miProtectVirtualMemory_failed {newProtect : Nat}
    (h : miProtectVirtualMemory m p space address size newProtect = .ok (m', reply))
    (hs : ntSuccess reply.status = false) : m' = m := by
  rw [miProtectVirtualMemory] at h
  dsimp only at h
  split at h
  · cases h
    rfl
  split at h
  · cases h
    rfl
  split at h
  · cases h
    rfl
  split at h
  · cases h
    rfl
  · obtain ⟨⟨w, status⟩, -, h⟩ := bind_eq_ok h
    obtain ⟨-, -, h⟩ := bind_eq_ok h
    cases h
    exact absurd hs ntSuccess_statusSuccess

theorem miCommitReserveSectionRange_failed {s : Nat} {body : Section}
    (h : miCommitReserveSectionRange grants m s body p vad base size protect = .ok (m', status))
    (hs : ntSuccess status = false) : m' = m := by
  rw [miCommitReserveSectionRange] at h
  dsimp only at h
  split at h
  · cases h
  split at h
  · cases h
  split at h
  · cases h
    rfl
  split at h
  · cases h
    rfl
  split at h
  · cases h
    rfl
  · obtain ⟨m1, -, h⟩ := bind_eq_ok h
    cases h
    exact absurd hs ntSuccess_statusSuccess

theorem allocationStatus_size (h : allocationStatus r = statusSuccess) :
    (roundedRange r).2 ≠ 0 := by
  intro hzero
  rw [allocationStatus] at h
  dsimp only at h
  rw [if_pos hzero] at h
  repeat' split at h
  all_goals exact absurd h (by decide)

theorem align_le {align : Nat} (h : align = 0 ∨ ∃ k, 16 ≤ k ∧ k < 64 ∧ align = 2 ^ k) :
    align ≤ 2 ^ 63 ∧ align % pageSize = 0 := by
  rcases h with rfl | ⟨k, hlow, hhigh, rfl⟩
  · exact ⟨Nat.zero_le _, rfl⟩
  · refine ⟨Nat.pow_le_pow_right (by decide) (by omega), ?_⟩
    have hdvd : 2 ^ 12 ∣ 2 ^ k := Nat.pow_dvd_pow 2 (by omega)
    exact Nat.mod_eq_zero_of_dvd hdvd

theorem allocate_failsCleanly (hspace : m.space p = some space)
    (hkept : Kept space) (hadmitted : (Request.allocate r).Admitted)
    (hloses : ¬ Loses grants m.phys space (.allocate r)) :
    FailsCleanly grants m p space (.allocate r) := by
  intro m' status hrun hs
  obtain ⟨⟨m1, reply⟩, h, hpair⟩ := Outcome.map_eq_ok hrun
  cases hpair
  obtain ⟨hreserves, halign⟩ := hadmitted
  rw [miAllocateVirtualMemoryEx] at h
  dsimp only at h
  split at h
  · cases h
    exact .refl _
  case isFalse hstatus =>
  have hsize := allocationStatus_size (Decidable.not_not.mp hstatus)
  split at h
  · split at h
    · cases h
      exact .refl _
    · split at h
      · cases h
        exact .refl _
      · cases h
        exact absurd hs ntSuccess_statusSuccess
  case isFalse hreset =>
  split at h
  · cases h
    exact .refl _
  case isFalse hcheck =>
  have hcheck : ntSuccess (miCheckPageProtect (miStoredPageProtect r.protect)) = true := by
    simpa using hcheck
  have hprotect := miCheckPageProtect_ne_zero hcheck
  split at h
  case isTrue hreplace =>
    refine miReplacePlaceholder_unchanged hspace hkept hprotect ?_ h hs
    rintro ⟨vad, hvad⟩
    exact hloses ⟨Decidable.not_not.mp hstatus, by simpa using hreset, hcheck, hreplace, vad, hvad⟩
  case isFalse =>
  split at h
  · split at h
    · cases h
      exact .refl _
    case isFalse hfound =>
      obtain ⟨hle, hdvd⟩ := align_le halign
      exact reserveRange_unchanged hspace hkept hprotect hsize
        (hkept.tiled.findFree hle hdvd hfound).1 h hs
  · split at h
    · cases h
      exact .refl _
    case isFalse hrange =>
      exact reserveRange_unchanged hspace hkept hprotect hsize
        (Laid.free_of_miRangeIsFree hkept.tiled.laid (by simpa using hrange)) h hs

theorem allocate_not_failsCleanly (hspace : m.space p = some space)
    (hkept : Kept space) (hadmitted : (Request.allocate r).Admitted)
    (hloses : Loses grants m.phys space (.allocate r)) :
    ¬ FailsCleanly grants m p space (.allocate r) := by
  intro hclean
  obtain ⟨hstatus, hreset, hcheck, hreplace, vad, hvad⟩ := hloses
  obtain ⟨m', reply, hrun, hs, hchanged⟩ :=
    hvad.changes hspace hkept (miCheckPageProtect_ne_zero hcheck) (hasFlag r.protect pageNoCache)
  have hrun' : miAllocateVirtualMemoryEx grants m p space r = .ok (m', reply) := by
    rw [miAllocateVirtualMemoryEx]
    dsimp only
    rw [if_neg (not_not_intro hstatus), if_neg (by rw [hreset]; decide), if_pos hadmitted.1,
      if_neg (by rw [hcheck]; decide), if_pos hreplace]
    exact hrun
  exact hchanged (hclean m' reply.status (by rw [Request.run, hrun']; rfl) hs)

/-- In every address space, whatever the pool and the frames allow, a request that fails changes
nothing, exactly if it is not one of the two that lose pages. -/
theorem request_failsCleanly_iff (grants : Grants) (m : Machine) (p : Nat) (space : Space)
    (hspace : m.space p = some space) (hkept : Kept space) (request : Request)
    (hadmitted : request.Admitted) :
    FailsCleanly grants m p space request ↔ ¬ Loses grants m.phys space request := by
  constructor
  · intro hclean hloses
    cases request with
    | free address size type =>
      obtain ⟨vad, hvad⟩ := hloses
      exact hvad.not_failsCleanly hspace hkept hclean
    | replacePlaceholder base size type word noCache =>
      obtain ⟨vad, hvad⟩ := hloses
      obtain ⟨m', reply, hrun, hs, hchanged⟩ :=
        hvad.changes hspace hkept (miCheckPageProtect_ne_zero hadmitted) noCache
      exact hchanged (hclean m' reply.status (by rw [Request.run, hrun]; rfl) hs)
    | allocate r => exact allocate_not_failsCleanly hspace hkept hadmitted hloses hclean
    | protect | commitReserve => exact hloses
  · intro hloses
    cases request with
    | free address size type => exact free_failsCleanly hspace hkept hloses
    | protect address size newProtect =>
      intro m' status hrun hs
      obtain ⟨⟨m1, reply⟩, h, hpair⟩ := Outcome.map_eq_ok hrun
      cases hpair
      obtain rfl := miProtectVirtualMemory_failed h hs
      exact .refl _
    | replacePlaceholder base size type word noCache =>
      intro m' status hrun hs
      obtain ⟨⟨m1, reply⟩, h, hpair⟩ := Outcome.map_eq_ok hrun
      cases hpair
      exact miReplacePlaceholder_unchanged hspace hkept (miCheckPageProtect_ne_zero hadmitted) hloses h hs
    | allocate r => exact allocate_failsCleanly hspace hkept hadmitted hloses
    | commitReserve s body vad base size word =>
      intro m' status hrun hs
      obtain rfl := miCommitReserveSectionRange_failed hrun hs
      exact .refl _

def twoPageVad : Vad :=
  { miCreateVad 0x20000 0x2000 pageReadWrite with pageProtect := [0, pageReadWrite] }

def twoPageSpace : Space where
  vads := [twoPageVad]
  table page := if page = 0x21000 then some (twoPageVad.leaf 1 7 pageReadWrite) else none

def twoPageMachine : Machine where
  phys := ⟨[], fun _ _ => 0⟩
  spaces := [some twoPageSpace]
  sharedUserData := 1
  kernelPml4 _ := 0

theorem kept_twoPageSpace : Kept twoPageSpace := by
  have hplaced : twoPageVad.Placed := ⟨by decide, by decide, by decide, by decide, by decide⟩
  have honly : ∀ {v}, v ∈ twoPageSpace.vads → v = twoPageVad := mem_singleton.mp
  have hpage : ∀ page, twoPageVad.Holds page → page = 0x20000 ∨ page = 0x21000 := by
    rintro page ⟨hlow, hhigh, hdvd⟩
    change 0x20000 ≤ page at hlow
    change page < 0x22000 at hhigh
    rw [pageSize] at hdvd
    omega
  refine ⟨⟨fun v hv => ?_, ?_⟩, fun v hv => ?_, fun v hv => ?_, fun v hv _ page hholds => ?_,
    fun page hfree => ?_⟩
  · rw [honly hv]
    exact hplaced
  · exact Intervals.laid_cons.mpr
      ⟨hplaced.base_lt_limit, fun _ hb => absurd hb not_mem_nil, Intervals.laid_nil⟩
  · rw [honly hv]
    decide
  · rw [honly hv]
    decide
  · rw [honly hv] at hholds ⊢
    rcases hpage page hholds with rfl | rfl
    · decide
    · decide
  · refine if_neg fun heq => hfree twoPageVad mem_cons_self ?_
    rw [heq]
    exact ⟨by decide, by decide, by decide⟩

/-- The first page, which is not committed, is released while the pool has no piece for the second. -/
theorem request_failsCleanly_piece : ∃ m',
    (Request.free 0x20000 0x1000 memRelease).run { tail := false } twoPageMachine 0 twoPageSpace =
      .ok (m', statusNoMemory) ∧ Unchanged twoPageMachine m' := by
  have hclean : FailsCleanly { tail := false } twoPageMachine 0 twoPageSpace
      (.free 0x20000 0x1000 memRelease) := by
    refine (request_failsCleanly_iff _ twoPageMachine 0 twoPageSpace rfl kept_twoPageSpace
      (.free 0x20000 0x1000 memRelease) trivial).mpr ?_
    rintro ⟨vad, h⟩
    have hvad : miFindVad twoPageSpace.vads (miRoundDown 0x20000 pageSize) = some twoPageVad := by decide
    obtain rfl := Option.some.inj (hvad.symm.trans h.found)
    obtain ⟨k, hk, hcommitted⟩ := h.committed
    obtain rfl : k = 0 := Nat.lt_one_iff.mp hk
    exact hcommitted (by decide)
  exact ⟨_, rfl, hclean _ _ rfl rfl⟩

/-- The second page is released while the pool has no piece for the first: the request fails and the
page with its frame is gone. -/
theorem request_loses_page :
    ¬ FailsCleanly { head := false } twoPageMachine 0 twoPageSpace (.free 0x21000 0x1000 memRelease) := by
  have hloses : LosesReleased { head := false } twoPageSpace (miRoundDown 0x21000 pageSize)
      (freeSize 0x21000 0x1000) memRelease twoPageVad :=
    ⟨rfl, by decide, by decide, rfl, fun h => absurd h (by decide), by decide, .inl ⟨by decide, rfl⟩,
      0, by decide, by decide⟩
  exact hloses.not_failsCleanly rfl kept_twoPageSpace

end Proskrnl.Mm
