import Proskrnl.Afd.Receive
import Proskrnl.Mm.UserCopy

/-!
# What a receive writes

A receive writes only to pages of the user half that its process may write, and through no pointer
more than the caller gave for it, exactly when the addresses its data can reach are in the user half
and the sender of a datagram is asked for with a length that holds it. The scatter list and the two
pointers for the sender are copied to without a probe, by a walk that does not stop at the kernel
half; everything else is probed.
-/

namespace Proskrnl.Afd

open Mm List
open Outcome (bind_eq_ok)

/-! ## Confinement -/

/-- How many bytes went through a pointer. -/
def Run.through (d : Run) (q : Pointer) : Nat :=
  ((d.writes.filter (·.pointer = q)).map Write.count).sum

/-- What was written on behalf of a process, given so much for each pointer. -/
structure Run.Confined (d : Run) (p : Nat) (given : Pointer → Nat) : Prop where
  inside : ∀ w ∈ d.writes, ∀ i < w.count, UserWritable w.machine p (w.base + i)
  counted : ∀ q, d.through q ≤ given q

/-- The length a caller gives for the sender: none without a pointer to one. -/
def givenLength (addrLenPtr : Nat) (addrLength : Int) : Nat :=
  if addrLenPtr = 0 then 0 else addrLength.toNat

def Request.given : Request → Pointer → Nat
  | .recv wsabufs _ _ _ _, .segment i => (wsabufs[i]?.map Seg.length).getD 0
  | .recv _ _ _ _ outputLength, .output => outputLength.toNat
  | .recv _ _ _ _ _, _ => 0
  | .recvMsg wsabufs _ _ _ _ _ _ _, .segment i => (wsabufs[i]?.map Seg.length).getD 0
  | .recvMsg _ _ _ _ addrLenPtr addrLength _ _, .address => givenLength addrLenPtr addrLength
  | .recvMsg _ _ _ _ _ _ _ _, .addressLength => 4
  | .recvMsg _ _ _ _ _ _ _ outputLength, .output => outputLength.toNat
  | .accept _ _ outputLength, .output => outputLength.toNat
  | .accept _ _ _, _ => 0
  | .read _ _ length, .output => length.toNat
  | .read _ _ _, _ => 0

/-- A request on a socket of a type is confined, whatever the state of the machine and the socket is
when it is made and, if it parks, when it is answered. -/
def Request.Confined (r : Request) (p : Nat) (type : SockType) : Prop :=
  ∀ o m sock x, UserTables m p → sock.type = type → sock.Fits → serve o p sock m r = .ok x →
    x.run.Confined p r.given ∧
    (x.parked = true → ∀ o' m' sock' handle d, UserTables m' p → sock'.type = type → sock'.Fits →
      finish o' p sock' m' handle r = .ok d → d.Confined p r.given)

def lengthBefore (segs : List Seg) (i : Nat) : Nat := ((segs.take i).map Seg.length).sum

/-- The chunks that bytes of a ring reach start in the user half. -/
def SegsBelow (segs : List Seg) (ringCount : Nat) : Prop :=
  ∀ (i : Nat) (seg : Seg), segs[i]? = some seg → ∀ k, ringChunk * k < seg.length →
    lengthBefore segs i + ringChunk * k < ringCount → (seg.base + ringChunk * k) % 2 ^ 48 < 2 ^ 47

/-- The segments that bytes of a datagram reach start in the user half. -/
def BasesBelow (segs : List Seg) (count : Nat) : Prop :=
  ∀ (i : Nat) (seg : Seg), segs[i]? = some seg → seg.length ≠ 0 → lengthBefore segs i < count →
    seg.base % 2 ^ 48 < 2 ^ 47

/-- The sender is asked for in the user half, with a length that holds an address, unless the rest
of it lies past the limit. -/
structure SenderBelow (addrPtr addrLenPtr : Nat) (addrLength : Int) : Prop where
  pointer : addrPtr % 2 ^ 48 < 2 ^ 47
  length : 16 ≤ givenLength addrLenPtr addrLength ∨
    kiUserSpaceLimit ≤ addrPtr % 2 ^ 48 + givenLength addrLenPtr addrLength
  lengthPointer : addrLenPtr ≠ 0 → addrLenPtr % 2 ^ 48 < 2 ^ 47

def SegsSafe : SockType → List Seg → Prop
  | .stream, segs => SegsBelow segs afdRingCapacity
  | .dgram, segs => BasesBelow segs (min dgramLimit (capacityOf segs))

/-- The condition, for the requests that their verb does not refuse. -/
def Request.Safe (type : SockType) : Request → Prop
  | .recv wsabufs _ msgFlags output outputLength =>
    wsabufs ≠ [] → wsabufs.length ≤ 64 →
    msgFlags &&& (afdMsgOob ||| afdMsgNotOob) = afdMsgNotOob →
    kiIsUserRange output outputLength.toNat = true → SegsSafe type wsabufs
  | .recvMsg wsabufs wsFlags _ addrPtr addrLenPtr addrLength output outputLength =>
    wsabufs ≠ [] → wsabufs.length ≤ 64 → hasFlag wsFlags 1 = false →
    kiIsUserRange output outputLength.toNat = true → SegsSafe type wsabufs ∧
      (type = .dgram → addrPtr ≠ 0 → SenderBelow addrPtr addrLenPtr addrLength)
  | .accept _ _ _ => True
  | .read _ _ _ => True

variable {p : Nat} {d d' d'' : Run} {q : Pointer} {e e' : Pointer → Nat}

structure Grows (p : Nat) (d d' : Run) (extra : Pointer → Nat) : Prop where
  tables : UserTables d.machine p → UserTables d'.machine p
  inside : (∀ w ∈ d.writes, ∀ i < w.count, UserWritable w.machine p (w.base + i)) →
    ∀ w ∈ d'.writes, ∀ i < w.count, UserWritable w.machine p (w.base + i)
  counted : ∀ q, d'.through q ≤ d.through q + extra q

theorem Grows.refl (d : Run) : Grows p d d e := ⟨id, id, fun _ => Nat.le_add_right _ _⟩

theorem Grows.trans (h : Grows p d d' e) (h' : Grows p d' d'' e') :
    Grows p d d'' (fun q => e q + e' q) := by
  refine ⟨fun ht => h'.tables (h.tables ht), fun hi => h'.inside (h.inside hi), ?_⟩
  intro q
  have h1 := h.counted q
  have h2 := h'.counted q
  omega

theorem Grows.mono (h : Grows p d d' e) (he : ∀ q, e q ≤ e' q) : Grows p d d' e' :=
  ⟨h.tables, h.inside, fun q => (h.counted q).trans (Nat.add_le_add_left (he q) _)⟩

variable {m : Machine} {va n index msgFlags recvFlags wsFlags output outputLength : Nat}
  {source rest : List UInt8} {status : NtStatus} {forceAsync : Bool} {wsabufs : List Seg}

theorem Grows.confined (h : Grows p ⟨m, []⟩ d e) : d.Confined p e := by
  refine ⟨h.inside (fun _ hw => nomatch hw), ?_⟩
  intro q
  simpa [Run.through] using h.counted q

def only (q : Pointer) (n : Nat) : Pointer → Nat := fun q' => if q' = q then n else 0

theorem through_append (d : Run) (m : Machine) (w : Write) (q' : Pointer) :
    Run.through ⟨m, d.writes ++ [w]⟩ q' = d.through q' + if w.pointer = q' then w.count else 0 := by
  simp only [Run.through, filter_append, map_append, sum_append]
  congr 1
  by_cases h : w.pointer = q'
  · simp [h]
  · simp [h]

theorem grows_write {count : Nat} (htables : UserTables d.machine p → UserTables m p)
    (hinside : ∀ i < count, UserWritable m p (va + i)) (hn : count ≤ n) :
    Grows p d ⟨m, d.writes ++ [⟨q, va, count, m⟩]⟩ (only q n) := by
  refine ⟨htables, ?_, ?_⟩
  · intro hi w hw
    rcases mem_append.mp hw with hw | hw
    · exact hi w hw
    · rw [mem_singleton] at hw
      subst hw
      exact hinside
  · intro q'
    rw [through_append]
    apply Nat.add_le_add_left
    simp only [only]
    split
    case isTrue h => rw [if_pos h.symm]; exact hn
    case isFalse => exact Nat.zero_le _

/-! ## Copies -/

theorem afdCopyToOwner_grows (ht : UserTables d.machine p)
    (hva : source ≠ [] → va % 2 ^ 48 < 2 ^ 47)
    (hn : source.length ≤ n ∨ n < 2 ^ 47 ∧ kiUserSpaceLimit ≤ va % 2 ^ 48 + n)
    (h : afdCopyToOwner d p q va source = .ok d') : Grows p d d' (only q n) := by
  obtain ⟨⟨m, count⟩, hcopy, h⟩ := bind_eq_ok h
  cases h
  rcases source with _ | ⟨byte, source⟩
  · cases hcopy
    exact grows_write id (fun _ hi => absurd hi (Nat.not_lt_zero _)) (Nat.zero_le _)
  · obtain ⟨hkept, hle⟩ := miCopyToUserRangeChecked_kept ht (hva (cons_ne_nil _ _)) hcopy
    refine grows_write (fun _ => hkept.tables)
      (fun i hi => hkept.writable i (Nat.zero_le _) hi) ?_
    rcases hn with hn | hn
    · exact hle.trans hn
    · -- a byte past what was given would lie past the limit
      by_contra hover
      have hpast := hkept.writable n (Nat.zero_le _) (by omega)
      have hbelow := hpast.below_limit hkept.tables
      have hlt := miRoundDown_lt_add ((va + n) % 2 ^ 48)
      have hhalf := hva (cons_ne_nil _ _)
      omega

theorem storeThrough_kept (hva : va + source.length ≤ kiUserSpaceLimit) :
    (storeThrough p va source m).1.spaces = m.spaces ∧
      (storeThrough p va source m).2 ≤ source.length ∧
      ∀ i < (storeThrough p va source m).2, UserWritable (storeThrough p va source m).1 p (va + i) := by
  induction source generalizing va m with
  | nil => exact ⟨rfl, Nat.le_refl _, fun _ hi => absurd hi (Nat.not_lt_zero _)⟩
  | cons byte source ih =>
    have hnone : m.spaces = m.spaces ∧ 0 ≤ (byte :: source).length ∧
        ∀ i < 0, UserWritable m p (va + i) :=
      ⟨rfl, Nat.zero_le _, fun _ hi => absurd hi (Nat.not_lt_zero _)⟩
    rw [length_cons] at hva
    unfold storeThrough
    split
    · exact hnone
    case h_2 pte hleaf =>
      split
      case isFalse => exact hnone
      case isTrue hallowed =>
        obtain ⟨hspaces, hle, hinside⟩ := @ih
          { m with phys := m.phys.store pte.frame (va % pageSize) byte } (va + 1) (by omega)
        refine ⟨hspaces, Nat.succ_le_succ hle, ?_⟩
        intro i hi
        rcases i with _ | i
        · obtain ⟨space, hspace, hleaf⟩ := Option.bind_eq_some_iff.mp hleaf
          rw [Bool.and_eq_true] at hallowed
          have hhalf : va % 2 ^ 48 < 2 ^ 47 := by simp only [kiUserSpaceLimit] at hva; omega
          exact (userWritable_of_leaf hspace hleaf hhalf hallowed.1 hallowed.2).of_spaces hspaces
        · have := hinside i (Nat.lt_of_succ_lt_succ hi)
          rwa [show va + (i + 1) = va + 1 + i by omega]

theorem memcpy_grows (hva : va + source.length ≤ kiUserSpaceLimit) (hn : source.length ≤ n) :
    Grows p d (d.memcpy p q va source) (only q n) := by
  obtain ⟨hspaces, hle, hinside⟩ := storeThrough_kept (p := p) (m := d.machine) hva
  exact grows_write (fun ht => ht.of_spaces hspaces) hinside (hle.trans hn)

theorem probePages_tables {forWrite : Bool} {page : Nat} {m' : Machine}
    (hm : UserTables m p) (h : probePages forWrite p page n m = .ok (m', status)) :
    UserTables m' p := by
  induction n generalizing page m with
  | zero => cases h; exact hm
  | succ n ih =>
    unfold probePages at h
    split at h
    · cases h; exact hm
    split at h
    · cases h; exact hm
    split at h
    · cases h; exact hm
    split at h
    case h_2.isFalse.isTrue space hspace _ _ _ _ _ =>
      obtain ⟨⟨m1, resolved⟩, hresolve, h⟩ := bind_eq_ok h
      have hm1 := hm.resolve hspace hresolve
      cases resolved with
      | none => cases h; exact hm1
      | some resolved =>
        simp only at h
        split at h
        · exact ih hm1 h
        · cases h; exact hm1
    · exact ih hm h

theorem kiIsUserRange_le {base size : Nat} (hsize : size < 2 ^ 32) (hpos : size ≠ 0)
    (h : kiIsUserRange base size = true) : base + size ≤ kiUserSpaceLimit := by
  simp [kiIsUserRange, hpos, uint64] at h
  have hwrap := of_decide_eq_false h.1
  have hlimit := of_decide_eq_true h.2
  simp only [kiUserSpaceLimit] at *
  omega

theorem kiProbeRange_kept {m' : Machine} {start length alignment : Nat} {forWrite : Bool}
    (hm : UserTables m p)
    (h : kiProbeRange m p start length alignment forWrite = .ok (m', status)) :
    UserTables m' p ∧ (ntSuccess status = true → kiIsUserRange start length = true) := by
  unfold kiProbeRange at h
  split at h
  case isTrue hzero =>
    cases h
    subst hzero
    exact ⟨hm, fun _ => rfl⟩
  split at h
  · cases h
    exact ⟨hm, fun h => by simp [ntSuccess, statusDatatypeMisalignment] at h⟩
  split at h
  · cases h
    exact ⟨hm, fun h => by simp [ntSuccess, statusAccessViolation] at h⟩
  case isFalse hrange =>
    exact ⟨probePages_tables hm h, fun _ => by simpa using hrange⟩

/-! ## Delivery -/

def segsGiven : Nat → List Seg → Pointer → Nat
  | _, [], _ => 0
  | index, seg :: segs, q => only (.segment index) seg.length q + segsGiven (index + 1) segs q

theorem segsGiven_segment (index : Nat) (segs : List Seg) (j : Nat) :
    segsGiven index segs (.segment (index + j)) = (segs[j]?.map Seg.length).getD 0 ∧
      ∀ i < index, segsGiven index segs (.segment i) = 0 := by
  induction segs generalizing index j with
  | nil => exact ⟨rfl, fun _ _ => rfl⟩
  | cons seg segs ih =>
    refine ⟨?_, ?_⟩
    · rcases j with _ | j
      · simp [segsGiven, only, (ih (index + 1) 0).2 index (by omega)]
      · have := (ih (index + 1) j).1
        rw [show index + 1 + j = index + (j + 1) by omega] at this
        simp [segsGiven, only, this]
    · intro i hi
      simp [segsGiven, only, (ih (index + 1) 0).2 i (by omega), Nat.ne_of_lt hi]

theorem segsGiven_eq (segs : List Seg) (j : Nat) :
    segsGiven 0 segs (.segment j) = (segs[j]?.map Seg.length).getD 0 := by
  have := (segsGiven_segment 0 segs j).1
  rwa [Nat.zero_add] at this

theorem segsGiven_other (hq : ∀ j, q ≠ .segment j) (index : Nat) (segs : List Seg) :
    segsGiven index segs q = 0 := by
  induction segs generalizing index with
  | nil => rfl
  | cons seg segs ih => simp [segsGiven, only, hq index, ih]

theorem consumeSegment_grows {fuel segDone : Nat} {seg : Seg} {rest' : List UInt8}
    (ht : UserTables d.machine p) (hfuel : rest.length ≤ fuel)
    (hbelow : ∀ k, segDone + ringChunk * k < seg.length → ringChunk * k < rest.length →
      (seg.base + (segDone + ringChunk * k)) % 2 ^ 48 < 2 ^ 47)
    (h : consumeSegment p index seg fuel segDone rest d = .ok (d', rest')) :
    Grows p d d' (only (.segment index) (seg.length - segDone)) ∧
      rest' = rest.drop (seg.length - segDone) := by
  induction fuel generalizing segDone rest d with
  | zero =>
    cases h
    rw [length_eq_zero_iff.mp (Nat.le_zero.mp hfuel)]
    exact ⟨.refl _, (drop_nil).symm⟩
  | succ fuel ih =>
    unfold consumeSegment at h
    split at h
    case isTrue hdone =>
      cases h
      refine ⟨.refl _, ?_⟩
      rcases hdone with hdone | hdone
      · rw [Nat.sub_eq_zero_of_le hdone, drop_zero]
      · rw [hdone, drop_nil]
    case isFalse hmore =>
      obtain ⟨hlt, hrest⟩ := not_or.mp hmore
      have hpos : 0 < rest.length := length_pos_iff.mpr hrest
      have hchunk : 0 < ringChunk := by decide
      simp only at h
      obtain ⟨take, htake⟩ : ∃ take, take = min (min (seg.length - segDone) ringChunk) rest.length :=
        ⟨_, rfl⟩
      rw [← htake] at h
      obtain ⟨d1, hcopy, h⟩ := bind_eq_ok h
      have hlength : (rest.take take).length = take := by
        rw [length_take]; omega
      have hstart : rest.take take ≠ [] → uint64 (seg.base + segDone) % 2 ^ 48 < 2 ^ 47 := by
        intro _
        rw [uint64_mod]
        exact hbelow 0 (by omega) (by omega)
      have hgrows := afdCopyToOwner_grows ht hstart (.inl (Nat.le_refl _)) hcopy
      have hnext : ∀ k, segDone + take + ringChunk * k < seg.length →
          ringChunk * k < (rest.drop take).length →
          (seg.base + (segDone + take + ringChunk * k)) % 2 ^ 48 < 2 ^ 47 := by
        intro k hk1 hk2
        rw [length_drop] at hk2
        -- the turn was not the last, so that it took a whole chunk
        have hwhole : take = ringChunk := by omega
        have := hbelow (k + 1) (by rw [Nat.mul_succ]; omega) (by rw [Nat.mul_succ]; omega)
        rw [hwhole]
        rwa [Nat.mul_succ, show segDone + (ringChunk * k + ringChunk) =
          segDone + ringChunk + ringChunk * k by omega] at this
      obtain ⟨hmore, hleft⟩ := ih (hgrows.tables ht) (by rw [length_drop]; omega) hnext h
      refine ⟨(hgrows.trans hmore).mono ?_, ?_⟩
      · intro q'
        simp only [only, hlength]
        split <;> omega
      · rw [hleft, drop_drop]
        rcases Nat.lt_or_ge take rest.length with hshort | hshort
        · congr 1
          omega
        · rw [drop_eq_nil_of_le (by omega), drop_eq_nil_of_le (by omega)]

theorem lengthBefore_cons (seg : Seg) (segs : List Seg) (i : Nat) :
    lengthBefore (seg :: segs) (i + 1) = seg.length + lengthBefore segs i := by
  simp [lengthBefore]

theorem consumeSegments_grows {segs : List Seg} {rest' : List UInt8}
    (ht : UserTables d.machine p) (hbelow : SegsBelow segs rest.length)
    (h : consumeSegments p index segs rest d = .ok (d', rest')) :
    Grows p d d' (segsGiven index segs) := by
  induction segs generalizing index rest d with
  | nil => cases h; exact .refl _
  | cons seg segs ih =>
    unfold consumeSegments at h
    split at h
    · cases h; exact .refl _
    · obtain ⟨⟨d1, rest1⟩, hsegment, h⟩ := bind_eq_ok h
      obtain ⟨hgrows, hrest⟩ := consumeSegment_grows ht (Nat.le_refl _) (by
        intro k hk1 hk2
        rw [Nat.zero_add] at *
        exact hbelow 0 seg rfl k hk1 (by simpa [lengthBefore] using hk2)) hsegment
      have hbelow1 : SegsBelow segs rest1.length := by
        intro i seg' hseg' k hk hreach
        rw [hrest, length_drop] at hreach
        refine hbelow (i + 1) seg' hseg' k hk ?_
        rw [lengthBefore_cons]
        omega
      exact hgrows.trans (ih (hgrows.tables ht) hbelow1 h)

theorem SegsBelow.mono {segs : List Seg} {n' : Nat} (h : SegsBelow segs n) (hn : n' ≤ n) :
    SegsBelow segs n' :=
  fun i seg hseg k hk hreach => h i seg hseg k hk (Nat.lt_of_lt_of_le hreach hn)

theorem BasesBelow.mono {segs : List Seg} {n' : Nat} (h : BasesBelow segs n) (hn : n' ≤ n) :
    BasesBelow segs n' :=
  fun i seg hseg hne hreach => h i seg hseg hne (Nat.lt_of_lt_of_le hreach hn)

theorem deliverSegments_grows {segs : List Seg}
    (ht : UserTables d.machine p) (hbelow : BasesBelow segs rest.length)
    (h : deliverSegments p index segs rest d = .ok d') :
    Grows p d d' (segsGiven index segs) := by
  induction segs generalizing index rest d with
  | nil => cases h; exact .refl _
  | cons seg segs ih =>
    unfold deliverSegments at h
    split at h
    · cases h; exact .refl _
    case isFalse hrest =>
      obtain ⟨d1, hcopy, h⟩ := bind_eq_ok h
      have hstart : rest.take seg.length ≠ [] → seg.base % 2 ^ 48 < 2 ^ 47 := by
        intro hne
        have hpos : 0 < rest.length := length_pos_iff.mpr hrest
        refine hbelow 0 seg rfl ?_ (by simpa [lengthBefore] using hpos)
        intro hzero
        rw [hzero, take_zero] at hne
        exact hne rfl
      have hgrows := afdCopyToOwner_grows ht hstart
        (.inl (length_take_le seg.length rest)) hcopy
      have hbelow1 : BasesBelow segs (rest.drop seg.length).length := by
        intro i seg' hseg' hne hreach
        rw [length_drop] at hreach
        refine hbelow (i + 1) seg' hseg' hne ?_
        rw [lengthBefore_cons]
        omega
      exact hgrows.trans (ih (hgrows.tables ht) hbelow1 h)

def senderGiven (addrPtr addrLenPtr : Nat) (addrLength : Int) (q : Pointer) : Nat :=
  if addrPtr = 0 then 0
  else only .address (givenLength addrLenPtr addrLength) q + only .addressLength 4 q

theorem deliverSender_grows {addrPtr addrLenPtr : Nat} {addrLength : Int} {dgram : Dgram}
    (ht : UserTables d.machine p)
    (hsafe : addrPtr ≠ 0 → SenderBelow addrPtr addrLenPtr addrLength)
    (h : deliverSender p addrPtr addrLenPtr dgram d = .ok d') :
    Grows p d d' (senderGiven addrPtr addrLenPtr addrLength) := by
  unfold deliverSender at h
  split at h
  · cases h; exact .refl _
  case isFalse haddr =>
    have hbelow := hsafe haddr
    have hlength : (afdFillSockaddr dgram.address dgram.hostPort).length = 16 := by
      simp [afdFillSockaddr]
    obtain ⟨d1, hcopy, h⟩ := bind_eq_ok h
    have hgrows := afdCopyToOwner_grows (n := givenLength addrLenPtr addrLength) ht
      (fun _ => hbelow.pointer) (by have := hbelow.length; rw [hlength]; omega) hcopy
    split at h
    · cases h
      refine hgrows.mono fun q' => ?_
      rw [senderGiven, if_neg haddr]
      exact Nat.le_add_right _ _
    case isFalse hptr =>
      have hword := afdCopyToOwner_grows (n := 4) (hgrows.tables ht)
        (fun _ => hbelow.lengthPointer hptr) (.inl (by simp)) h
      refine (hgrows.trans hword).mono fun q' => ?_
      rw [senderGiven, if_neg haddr]

/-! ## Verbs -/

structure RecvSafe (type : SockType) (segs : List Seg) (addrPtr addrLenPtr : Nat)
    (addrLength : Int) : Prop where
  segs : SegsSafe type segs
  sender : type = .dgram → addrPtr ≠ 0 → SenderBelow addrPtr addrLenPtr addrLength

def recvGiven (segs : List Seg) (addrPtr addrLenPtr : Nat) (addrLength : Int) (q : Pointer) : Nat :=
  segsGiven 0 segs q + senderGiven addrPtr addrLenPtr addrLength q

variable {sock : Socket} {segs : List Seg} {addrPtr addrLenPtr : Nat} {addrLength : Int}
  {o : Outcomes} {x : Delivered} {y : Served}

theorem afdRingConsume_grows {peek : Bool} {sock' : Socket} {delivered : Nat}
    (ht : UserTables d.machine p) (hfits : sock.Fits) (hsegs : SegsBelow segs afdRingCapacity)
    (h : afdRingConsume sock p segs peek d = .ok (d', sock', delivered)) :
    Grows p d d' (recvGiven segs addrPtr addrLenPtr addrLength) := by
  obtain ⟨⟨d1, rest⟩, hconsume, h⟩ := bind_eq_ok h
  cases h
  exact (consumeSegments_grows ht (hsegs.mono hfits.ring) hconsume).mono
    fun q' => Nat.le_add_right _ _

theorem afdDeliverDgram_grows {dgram : Dgram} {queue : List Dgram} (ht : UserTables d.machine p)
    (hlength : dgram.data.length ≤ dgramLimit)
    (hsafe : RecvSafe .dgram segs addrPtr addrLenPtr addrLength)
    (h : afdDeliverDgram sock dgram queue p segs addrPtr addrLenPtr d = .ok x) :
    Grows p d x.run (recvGiven segs addrPtr addrLenPtr addrLength) := by
  obtain ⟨d1, hsegs, h⟩ := bind_eq_ok h
  obtain ⟨d2, hsender, h⟩ := bind_eq_ok h
  cases h
  have hbases : BasesBelow segs
      (dgram.data.take (min dgram.data.length (capacityOf segs))).length := by
    apply BasesBelow.mono hsafe.segs
    rw [length_take]
    omega
  have hgrows := deliverSegments_grows ht hbases hsegs
  exact hgrows.trans (deliverSender_grows (hgrows.tables ht) (hsafe.sender rfl) hsender)

theorem park_run (h : park d sock status = .ok y) : y.run = d := by
  unfold park refuse at h
  split at h <;> cases h <;> rfl

theorem refuse_run (h : refuse d sock status = .ok y) :
    y.run = d ∧ y.parked = false := by
  cases h; exact ⟨rfl, rfl⟩

theorem Grows.of_run (h : y.run = d) : Grows p d y.run e := by rw [h]; exact .refl d

theorem afdRecvCommon_grows (ht : UserTables d.machine p)
    (hfits : sock.Fits) (hsafe : RecvSafe sock.type segs addrPtr addrLenPtr addrLength)
    (h : afdRecvCommon o sock p segs msgFlags forceAsync addrPtr addrLenPtr d = .ok y) :
    Grows p d y.run (recvGiven segs addrPtr addrLenPtr addrLength) := by
  unfold afdRecvCommon at h
  split at h
  · exact .of_run (refuse_run h).1
  split at h
  · exact .of_run (refuse_run h).1
  split at h
  · exact .of_run (refuse_run h).1
  split at h
  · split at h
    · exact .of_run (refuse_run h).1
    · exact .of_run (park_run h)
  case h_2 htype _ =>
    obtain ⟨⟨d1, sock1, delivered⟩, hconsume, h⟩ := bind_eq_ok h
    cases h
    have hsegs := hsafe.segs
    rw [htype] at hsegs
    exact afdRingConsume_grows ht hfits hsegs hconsume
  case h_3 dgram queue htype hqueue =>
    split at h
    · exact .of_run (park_run h)
    · obtain ⟨x, hdeliver, h⟩ := bind_eq_ok h
      cases h
      rw [htype] at hsafe
      exact afdDeliverDgram_grows ht (hfits.dgrams dgram (hqueue ▸ mem_cons_self)) hsafe hdeliver
  · exact .of_run (park_run h)

theorem afdCaptureSegments_ok (h : afdCaptureSegments o wsabufs = .ok segs) :
    segs = wsabufs ∧ wsabufs ≠ [] ∧ wsabufs.length ≤ 64 := by
  unfold afdCaptureSegments at h
  split at h
  · cases h
  case isFalse hcount =>
    split at h
    · cases h
    · cases h
      rw [not_or, length_eq_zero_iff] at hcount
      exact ⟨rfl, hcount.1, Nat.le_of_not_lt hcount.2⟩

section
variable (ht : UserTables d.machine p)
include ht

theorem afdRecvIoctl_grows (hfits : sock.Fits)
    (hsafe : wsabufs ≠ [] → wsabufs.length ≤ 64 →
      msgFlags &&& (afdMsgOob ||| afdMsgNotOob) = afdMsgNotOob →
      SegsSafe sock.type wsabufs)
    (h : afdRecvIoctl o sock p wsabufs recvFlags msgFlags d = .ok y) :
    Grows p d y.run (recvGiven wsabufs 0 0 0) := by
  unfold afdRecvIoctl at h
  split at h
  · exact .of_run (refuse_run h).1
  split at h
  · exact .of_run (refuse_run h).1
  case isFalse hflags =>
    split at h
    · exact .of_run (refuse_run h).1
    case h_2 segs hcapture =>
      obtain ⟨rfl, hne, hle⟩ := afdCaptureSegments_ok hcapture
      exact afdRecvCommon_grows ht hfits
        ⟨hsafe hne hle (not_not.mp hflags), fun _ hzero => absurd rfl hzero⟩ h

theorem afdRecvUrgent_grows
    (h : afdRecvUrgent o sock p wsabufs d = .ok y) :
    Grows p d y.run (recvGiven wsabufs addrPtr addrLenPtr addrLength) := by
  unfold afdRecvUrgent at h
  split at h
  · exact .of_run (refuse_run h).1
  split at h
  · exact .of_run (refuse_run h).1
  · exact .of_run (refuse_run h).1
  case h_3 seg rest hcapture =>
    obtain ⟨rfl, -, -⟩ := afdCaptureSegments_ok hcapture
    split at h
    · exact .of_run (refuse_run h).1
    case isFalse hlength =>
      obtain ⟨⟨machine, probe⟩, hprobe, h⟩ := bind_eq_ok h
      obtain ⟨htables, hrange⟩ := kiProbeRange_kept ht hprobe
      have hstart : Grows p d { d with machine } (fun _ => 0) :=
        ⟨fun _ => htables, id, fun _ => Nat.le_refl _⟩
      simp only at h
      split at h
      · rw [(refuse_run h).1]
        exact hstart.mono fun _ => Nat.zero_le _
      case isFalse hsuccess =>
        cases h
        have hle := kiIsUserRange_le (by decide) (by decide) (hrange (by simpa using hsuccess))
        have hbyte : Grows p { d with machine }
            (Run.memcpy { d with machine } p (.segment 0) seg.base [sock.oobByte])
            (only (.segment 0) seg.length) :=
          memcpy_grows hle (Nat.one_le_iff_ne_zero.mpr hlength)
        refine (hstart.trans hbyte).mono fun q' => ?_
        simp only [recvGiven, segsGiven]
        omega

theorem afdRecvMsg_grows (hfits : sock.Fits)
    (hsafe : wsabufs ≠ [] → wsabufs.length ≤ 64 → hasFlag wsFlags 1 = false →
      RecvSafe sock.type wsabufs addrPtr addrLenPtr addrLength)
    (h : afdRecvMsg o sock p wsabufs wsFlags forceAsync addrPtr addrLenPtr d = .ok y) :
    Grows p d y.run (recvGiven wsabufs addrPtr addrLenPtr addrLength) := by
  unfold afdRecvMsg at h
  split at h
  · exact .of_run (refuse_run h).1
  split at h
  · exact .of_run (refuse_run h).1
  split at h
  · exact afdRecvUrgent_grows ht h
  case isFalse hflag =>
    split at h
    · exact .of_run (refuse_run h).1
    case h_2 segs hcapture =>
      obtain ⟨rfl, hne, hle⟩ := afdCaptureSegments_ok hcapture
      exact afdRecvCommon_grows ht hfits (hsafe hne hle (by simpa using hflag)) h

theorem afdVfsRead_grows {buffer length : Nat} {synchronousIo : Bool} (hlength : length < 2 ^ 32)
    (h : afdVfsRead o sock p buffer length synchronousIo d = .ok y) :
    Grows p d y.run (only .output length) := by
  unfold afdVfsRead at h
  split at h
  · exact .of_run (refuse_run h).1
  split at h
  · exact .of_run (refuse_run h).1
  split at h
  · exact .of_run (refuse_run h).1
  split at h
  · simp only at h
    split at h
    · exact .of_run (refuse_run h).1
    case isFalse htake =>
      obtain ⟨⟨machine, probe⟩, hprobe, h⟩ := bind_eq_ok h
      obtain ⟨htables, hrange⟩ := kiProbeRange_kept ht hprobe
      have hstart : Grows p d { d with machine } (fun _ => 0) :=
        ⟨fun _ => htables, id, fun _ => Nat.le_refl _⟩
      simp only at h
      split at h
      · rw [(refuse_run h).1]
        exact hstart.mono fun _ => Nat.zero_le _
      case isFalse hsuccess =>
        cases h
        have hle := kiIsUserRange_le (by omega) htake (hrange (by simpa using hsuccess))
        have hbytes : Grows p { d with machine } (Run.memcpy { d with machine } p .output buffer
            (sock.ring.take (min sock.ring.length length))) (only .output length) :=
          memcpy_grows (by rw [length_take]; omega) (by rw [length_take]; omega)
        refine (hstart.trans hbytes).mono fun q' => ?_
        omega
  split at h
  · exact .of_run (refuse_run h).1
  split at h
  · exact .of_run (refuse_run h).1
  · exact .of_run (park_run h)

end

/-! ## Requests -/

theorem iopDeviceControl_grows
    {verb : Run → Except Halt Served} (hm : UserTables m p) (hlength : outputLength < 2 ^ 32)
    (hverb : ∀ d y, UserTables d.machine p → kiIsUserRange output outputLength = true →
      verb d = .ok y → Grows p d y.run e)
    (h : iopDeviceControl p output outputLength sock m verb = .ok y) :
    Grows p ⟨m, []⟩ y.run (fun q => e q + only .output outputLength q) := by
  obtain ⟨⟨m1, probe⟩, hprobe, h⟩ := bind_eq_ok h
  obtain ⟨htables, hrange⟩ := kiProbeRange_kept hm hprobe
  have hstart : Grows p ⟨m, []⟩ ⟨m1, []⟩ (fun _ => 0) :=
    ⟨fun _ => htables, id, fun _ => Nat.le_refl _⟩
  simp only at h
  split at h
  · rw [(refuse_run h).1]
    exact hstart.mono fun _ => Nat.zero_le _
  case isFalse hsuccess =>
    have hrange := hrange (by simpa using hsuccess)
    obtain ⟨y1, hverb1, h⟩ := bind_eq_ok h
    have hgrows := hstart.trans (hverb _ _ htables hrange hverb1)
    split at h
    case isTrue hcopy =>
      cases h
      have hle := kiIsUserRange_le hlength (by have := hcopy.2.2; omega) hrange
      have hcopied : Grows p y1.run (y1.run.memcpy p .output output
          (List.replicate (min y1.information outputLength) 0)) (only .output outputLength) :=
        memcpy_grows (by rw [length_replicate]; omega) (by rw [length_replicate]; omega)
      refine (hgrows.trans hcopied).mono fun q' => ?_
      omega
    case isFalse =>
      cases h
      exact hgrows.mono fun q' => by omega

theorem iopCompletePendingRequest_grows {userBuffer bufferLength information : Nat}
    {kernelBuffer : List UInt8} (ht : UserTables d.machine p) (hlength : bufferLength < 2 ^ 32)
    (hrange : kiIsUserRange userBuffer bufferLength = true)
    (h : iopCompletePendingRequest d p userBuffer bufferLength kernelBuffer information = .ok d') :
    Grows p d d' (only .output bufferLength) := by
  unfold iopCompletePendingRequest at h
  split at h
  case isTrue hlegs =>
    have hle := kiIsUserRange_le hlength hlegs.1 hrange
    refine afdCopyToOwner_grows ht (fun _ => ?_) (.inl ?_) h
    · simp only [kiUserSpaceLimit] at hle
      omega
    · rw [length_take]
      omega
  case isFalse => cases h; exact .refl _

theorem afdCompleteRecvLocked_grows (addrLength : Int) {request : ParkedRecv}
    (ht : UserTables d.machine p)
    (hfits : sock.Fits) (hlength : request.bufferLength < 2 ^ 32)
    (hrange : kiIsUserRange request.userBuffer request.bufferLength = true)
    (hsafe : RecvSafe sock.type request.segs request.addrPtr request.addrLenPtr addrLength)
    (h : afdCompleteRecvLocked sock p request d = .ok x) :
    Grows p d x.run (fun q => recvGiven request.segs request.addrPtr request.addrLenPtr addrLength q +
      only .output request.bufferLength q) := by
  unfold afdCompleteRecvLocked at h
  -- every answer ends with the data legs of the engine
  have hcomplete : ∀ {d1 : Run} {socket : Socket} {status : NtStatus} {information : Nat}
      {kernelBuffer : List UInt8} {e : Pointer → Nat}, Grows p d d1 e →
      (do
        let run ← iopCompletePendingRequest d1 p request.userBuffer request.bufferLength
          kernelBuffer information
        Except.ok (Delivered.mk run socket status information)) = .ok x →
      Grows p d x.run (fun q => e q + only .output request.bufferLength q) := by
    intro d1 socket status information kernelBuffer e hgrows h
    obtain ⟨run, hplace, h⟩ := bind_eq_ok h
    cases h
    exact hgrows.trans
      (iopCompletePendingRequest_grows (hgrows.tables ht) hlength hrange hplace)
  simp only at h
  split at h
  case h_1 dgram queue htype hqueue =>
    obtain ⟨x1, hdeliver, h⟩ := bind_eq_ok h
    rw [htype] at hsafe
    exact hcomplete (afdDeliverDgram_grows ht
      (hfits.dgrams dgram (hqueue ▸ mem_cons_self)) hsafe hdeliver) h
  · cases h; exact .refl _
  · split at h
    · exact hcomplete (.refl _) h
    · exact hcomplete (.refl _) h
  case h_4 htype _ =>
    split at h
    · exact hcomplete (.refl _) h
    · obtain ⟨⟨d1, sock1, delivered⟩, hconsume, h⟩ := bind_eq_ok h
      have hsegs := hsafe.segs
      rw [htype] at hsegs
      exact hcomplete (afdRingConsume_grows ht hfits hsegs hconsume) h

/-! ## What a parked request has passed -/

theorem iopDeviceControl_parked {verb : Run → Except Halt Served} (hm : UserTables m p)
    (h : iopDeviceControl p output outputLength sock m verb = .ok y) (hparked : y.parked = true) :
    kiIsUserRange output outputLength = true ∧ ∃ d y', verb d = .ok y' ∧ y'.parked = true := by
  obtain ⟨⟨m1, probe⟩, hprobe, h⟩ := bind_eq_ok h
  obtain ⟨-, hrange⟩ := kiProbeRange_kept hm hprobe
  simp only at h
  split at h
  · rw [(refuse_run h).2] at hparked
    cases hparked
  case isFalse hsuccess =>
    obtain ⟨y', hverb, h⟩ := bind_eq_ok h
    refine ⟨hrange (by simpa using hsuccess), ⟨m1, []⟩, y', hverb, ?_⟩
    split at h <;> cases h <;> exact hparked

theorem afdRecvIoctl_parked
    (h : afdRecvIoctl o sock p wsabufs recvFlags msgFlags d = .ok y) (hparked : y.parked = true) :
    wsabufs ≠ [] ∧ wsabufs.length ≤ 64 ∧
      msgFlags &&& (afdMsgOob ||| afdMsgNotOob) = afdMsgNotOob := by
  unfold afdRecvIoctl at h
  split at h
  · rw [(refuse_run h).2] at hparked; cases hparked
  split at h
  · rw [(refuse_run h).2] at hparked; cases hparked
  case isFalse hflags =>
    split at h
    · rw [(refuse_run h).2] at hparked; cases hparked
    case h_2 segs hcapture =>
      obtain ⟨-, hne, hle⟩ := afdCaptureSegments_ok hcapture
      exact ⟨hne, hle, not_not.mp hflags⟩

theorem afdRecvUrgent_parked (h : afdRecvUrgent o sock p wsabufs d = .ok y) : y.parked = false := by
  unfold afdRecvUrgent at h
  split at h
  · exact (refuse_run h).2
  split at h
  · exact (refuse_run h).2
  · exact (refuse_run h).2
  · split at h
    · exact (refuse_run h).2
    · obtain ⟨⟨machine, probe⟩, -, h⟩ := bind_eq_ok h
      simp only at h
      split at h
      · exact (refuse_run h).2
      · cases h; rfl

theorem afdRecvMsg_parked
    (h : afdRecvMsg o sock p wsabufs wsFlags forceAsync addrPtr addrLenPtr d = .ok y)
    (hparked : y.parked = true) :
    wsabufs ≠ [] ∧ wsabufs.length ≤ 64 ∧ hasFlag wsFlags 1 = false := by
  unfold afdRecvMsg at h
  split at h
  · rw [(refuse_run h).2] at hparked; cases hparked
  split at h
  · rw [(refuse_run h).2] at hparked; cases hparked
  split at h
  · rw [afdRecvUrgent_parked h] at hparked; cases hparked
  case isFalse hflag =>
    split at h
    · rw [(refuse_run h).2] at hparked; cases hparked
    case h_2 segs hcapture =>
      obtain ⟨-, hne, hle⟩ := afdCaptureSegments_ok hcapture
      exact ⟨hne, hle, by simpa using hflag⟩

theorem afdAccept_run {acceptInto : Bool} (h : afdAccept o sock outputLength acceptInto d = .ok y) :
    y.run = d ∧ (y.parked = true → acceptInto = false → 4 ≤ outputLength) := by
  unfold afdAccept at h
  split at h
  · obtain ⟨hrun, hparked⟩ := refuse_run h
    exact ⟨hrun, fun h => by rw [hparked] at h; cases h⟩
  split at h
  · obtain ⟨hrun, hparked⟩ := refuse_run h
    exact ⟨hrun, fun h => by rw [hparked] at h; cases h⟩
  case isFalse hsmall =>
    refine ⟨park_run h, fun _ hnot => ?_⟩
    by_contra hlt
    exact hsmall ⟨by simp [hnot], by omega⟩

/-! ## Safe requests -/

theorem Run.Confined.mono (h : d.Confined p e) (he : ∀ q, e q ≤ e' q) : d.Confined p e' :=
  ⟨h.inside, fun q => (h.counted q).trans (he q)⟩

theorem recv_given_le {outputLength : UInt32} (q : Pointer) :
    recvGiven wsabufs 0 0 0 q + only .output outputLength.toNat q ≤
      (Request.recv wsabufs recvFlags msgFlags output outputLength).given q := by
  cases q with
  | segment i => simp [recvGiven, senderGiven, only, Request.given, segsGiven_eq]
  | address => simp [recvGiven, senderGiven, only, segsGiven_other]
  | addressLength => simp [recvGiven, senderGiven, only, segsGiven_other]
  | output => simp [recvGiven, senderGiven, only, Request.given, segsGiven_other]

theorem recvMsg_given_le {outputLength : UInt32} (q : Pointer) :
    recvGiven wsabufs addrPtr addrLenPtr addrLength q + only .output outputLength.toNat q ≤
      (Request.recvMsg wsabufs wsFlags forceAsync addrPtr addrLenPtr addrLength output
        outputLength).given q := by
  simp only [recvGiven, senderGiven]
  cases q with
  | segment i => split <;> simp [only, Request.given, segsGiven_eq]
  | address => split <;> simp [only, Request.given, segsGiven_other]
  | addressLength => split <;> simp [only, Request.given, segsGiven_other]
  | output => split <;> simp [only, Request.given, segsGiven_other]

theorem Request.Safe.confined {r : Request} {type : SockType} (hsafe : r.Safe type) :
    r.Confined p type := by
  intro o m sock x hm htype hfits hserve
  cases r with
  | recv wsabufs recvFlags msgFlags output outputLength =>
    have hlength : outputLength.toNat < 2 ^ 32 := outputLength.toNat_lt
    refine ⟨?_, ?_⟩
    · refine Run.Confined.mono (iopDeviceControl_grows hm hlength ?_ hserve).confined recv_given_le
      intro d y ht hrange hverb
      refine afdRecvIoctl_grows ht hfits ?_ hverb
      intro hne hle hflags
      exact htype ▸ hsafe hne hle hflags hrange
    · intro hparked o' m' sock' handle d hm' htype' hfits' hfinish
      obtain ⟨hrange, d1, y, hverb, hparked⟩ := iopDeviceControl_parked hm hserve hparked
      obtain ⟨hne, hle, hflags⟩ := afdRecvIoctl_parked hverb hparked
      obtain ⟨x1, hcomplete, hfinish⟩ := bind_eq_ok hfinish
      cases hfinish
      refine Run.Confined.mono (Grows.confined (afdCompleteRecvLocked_grows 0 hm'
        hfits' hlength hrange ⟨?_, fun _ h => absurd rfl h⟩ hcomplete)) recv_given_le
      exact htype' ▸ hsafe hne hle hflags hrange
  | recvMsg wsabufs wsFlags forceAsync addrPtr addrLenPtr addrLength output outputLength =>
    have hlength : outputLength.toNat < 2 ^ 32 := outputLength.toNat_lt
    refine ⟨?_, ?_⟩
    · refine Run.Confined.mono (iopDeviceControl_grows hm hlength ?_ hserve).confined
        recvMsg_given_le
      intro d y ht hrange hverb
      refine afdRecvMsg_grows ht hfits ?_ hverb
      intro hne hle hflag
      obtain ⟨hsegs, hsender⟩ := hsafe hne hle hflag hrange
      exact htype ▸ ⟨hsegs, hsender⟩
    · intro hparked o' m' sock' handle d hm' htype' hfits' hfinish
      obtain ⟨hrange, d1, y, hverb, hparked⟩ := iopDeviceControl_parked hm hserve hparked
      obtain ⟨hne, hle, hflag⟩ := afdRecvMsg_parked hverb hparked
      obtain ⟨x1, hcomplete, hfinish⟩ := bind_eq_ok hfinish
      cases hfinish
      obtain ⟨hsegs, hsender⟩ := hsafe hne hle hflag hrange
      exact Run.Confined.mono (Grows.confined (afdCompleteRecvLocked_grows addrLength hm' hfits' hlength
        hrange (htype' ▸ ⟨hsegs, hsender⟩) hcomplete)) recvMsg_given_le
  | accept acceptInto output outputLength =>
    have hlength : outputLength.toNat < 2 ^ 32 := outputLength.toNat_lt
    refine ⟨?_, ?_⟩
    · refine Run.Confined.mono (iopDeviceControl_grows (e := fun _ => 0) hm hlength ?_
        hserve).confined ?_
      · intro d y ht hrange hverb
        exact .of_run (afdAccept_run hverb).1
      · intro q
        cases q <;> simp [only, Request.given]
    · intro hparked o' m' sock' handle d hm' htype' hfits' hfinish
      obtain ⟨hrange, d1, y, hverb, hparked⟩ := iopDeviceControl_parked hm hserve hparked
      obtain ⟨⟨d2, status⟩, hcomplete, hfinish⟩ := bind_eq_ok hfinish
      cases hfinish
      have hnone : Run.Confined ⟨m', []⟩ p
          (Request.accept acceptInto output outputLength).given :=
        ⟨fun _ hw => (nomatch hw), fun _ => Nat.zero_le _⟩
      unfold afdCompleteAcceptLocked at hcomplete
      split at hcomplete
      · cases hcomplete; exact hnone
      case isFalse hmints =>
        have hfour := (afdAccept_run hverb).2 hparked (by simpa using hmints)
        split at hcomplete
        · cases hcomplete; exact hnone
        · obtain ⟨d3, hcopy, hcomplete⟩ := bind_eq_ok hcomplete
          cases hcomplete
          have hle := kiIsUserRange_le hlength (by omega) hrange
          have hgrows := afdCopyToOwner_grows (n := outputLength.toNat) hm'
            (fun _ => by simp only [kiUserSpaceLimit] at hle; omega)
            (.inl (by rw [Bytes.length_le]; exact hfour)) hcopy
          refine Run.Confined.mono hgrows.confined ?_
          intro q
          cases q <;> simp [only, Request.given]
  | read synchronousIo buffer length =>
    have hlength : length.toNat < 2 ^ 32 := length.toNat_lt
    have hgiven : ∀ q, only .output length.toNat q ≤
        (Request.read synchronousIo buffer length).given q := by
      intro q
      cases q <;> simp [only, Request.given]
    obtain ⟨⟨m1, probe⟩, hprobe, hserve⟩ := bind_eq_ok hserve
    obtain ⟨htables, hrange⟩ := kiProbeRange_kept hm hprobe
    simp only at hserve
    split at hserve
    · obtain ⟨hrun, hparked⟩ := refuse_run hserve
      refine ⟨hrun ▸ ⟨fun _ hw => (nomatch hw), fun _ => Nat.zero_le _⟩, ?_⟩
      intro h
      rw [hparked] at h
      cases h
    case isFalse hsuccess =>
      have hrange := hrange (by simpa using hsuccess)
      refine ⟨Run.Confined.mono (Grows.confined (m := m1)
        (afdVfsRead_grows htables hlength hserve)) hgiven, ?_⟩
      intro hparked o' m' sock' handle d hm' htype' hfits' hfinish
      simp only [finish] at hfinish
      split at hfinish
      · obtain ⟨x1, hturn, hfinish⟩ := bind_eq_ok hfinish
        cases hfinish
        exact Run.Confined.mono (Grows.confined (m := m')
          (afdVfsRead_grows hm' hlength hturn)) hgiven
      · obtain ⟨x1, hcomplete, hfinish⟩ := bind_eq_ok hfinish
        cases hfinish
        have hsafe' : RecvSafe sock'.type [] 0 0 0 := by
          refine ⟨?_, fun _ h => absurd rfl h⟩
          cases sock'.type <;> intro i seg hseg <;> cases hseg
        have hgrows := afdCompleteRecvLocked_grows 0 hm' hfits' hlength hrange
          hsafe' hcomplete
        refine Run.Confined.mono (Grows.confined hgrows) ?_
        intro q
        refine Nat.le_trans (Nat.le_of_eq ?_) (hgiven q)
        simp [recvGiven, segsGiven, senderGiven]

end Proskrnl.Afd
