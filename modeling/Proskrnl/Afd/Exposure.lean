import Proskrnl.Afd.Confinement

/-!
# Receives that are not confined

The converse of `Request.Safe.confined`: a machine in which every page of user space and of the
kernel half can be written, and a socket that has all the data it can hold, on which a request that
is not safe writes outside the user half or more than it was given.
-/

namespace Proskrnl.Afd

open Mm List

/-! ## An open machine -/

def entryFor (frame : Nat) : Nat := frame * 2 ^ 12 + 3

def tableByte (frame offset : Nat) : UInt8 := (Bytes.le 8 (entryFor (frame + 1))).getD (offset % 8) 0

def openPte : Pte where
  frame := 4
  present := true
  writable := true
  executable := true

def openSpace : Space where
  table := fun page => if page < kiUserSpaceLimit then some openPte else none

def openMachine (p : Nat) : Machine where
  phys := ⟨[], tableByte⟩
  spaces := List.replicate p none ++ [some openSpace]
  sharedUserData := 5
  kernelPml4 := fun _ => entryFor 1

structure Open (p : Nat) (m : Machine) : Prop where
  top : m.kernelPml4 = fun _ => entryFor 1
  tables : ∀ frame, 1 ≤ frame → frame ≤ 3 → m.phys.memory frame = tableByte frame
  space : m.space p = some openSpace

def Hits (va : Nat) : Prop := va % 2 ^ 48 < kiUserSpaceLimit ∨ 2 ^ 47 ≤ va % 2 ^ 48

variable {p : Nat} {m : Machine} {d : Run} {q : Pointer} {va : Nat}

theorem openMachine_open (p : Nat) : Open p (openMachine p) := by
  refine ⟨rfl, fun _ _ _ => rfl, ?_⟩
  simp [Machine.space, openMachine]

theorem Open.userTables (hm : Open p m) : UserTables m p := by
  intro space hspace page hpage
  rw [hm.space] at hspace
  cases hspace
  exact if_neg (Nat.not_lt.mpr hpage)

theorem tableEntry_open (hm : Open p m) (frame : Nat) (h1 : 1 ≤ frame) (h3 : frame ≤ 3)
    (index : Nat) : tableEntry m.phys frame index = entryFor (frame + 1) := by
  have hbytes : ((List.range 8).map fun k => m.phys.memory frame (8 * index + k)) =
      Bytes.le 8 (entryFor (frame + 1)) := by
    rw [hm.tables frame h1 h3]
    apply ext_getElem
    · simp
    · intro k hk hk'
      have hk8 : k < 8 := by simpa using hk
      simp [tableByte, Nat.mod_eq_of_lt hk8, getElem?_eq_getElem hk']
  rw [tableEntry, hbytes, Bytes.ofLe_le_of_lt]
  simp only [entryFor]
  omega

theorem entryFor_bits (frame : Nat) (h : frame ≤ 4) :
    entryPresent (entryFor frame) = true ∧ entryFrame (entryFor frame) = frame := by
  simp only [entryPresent, entryFrame, entryFor, beq_iff_eq]
  omega

theorem translate_open (hm : Open p m) (hva : Hits va) :
    miTranslateUserPage m openSpace va = some openPte := by
  unfold miTranslateUserPage
  simp only
  split
  case isTrue hlow =>
    have hlt : miRoundDown (va % 2 ^ 48) pageSize < kiUserSpaceLimit := by
      simp only [Hits, miRoundDown, pageSize, kiUserSpaceLimit] at *
      omega
    exact if_pos hlt
  case isFalse hhigh =>
    have hentry : kernelEntry m va = some (entryFor 4) := by
      have h1 := entryFor_bits 1 (by omega)
      have h2 := entryFor_bits 2 (by omega)
      have h3 := entryFor_bits 3 (by omega)
      simp only [kernelEntry, hm.top, h1.1, h1.2, tableEntry_open hm 1 (by omega) (by omega),
        h2.1, h2.2, tableEntry_open hm 2 (by omega) (by omega), h3.1, h3.2,
        tableEntry_open hm 3 (by omega) (by omega), Bool.not_true, Bool.false_eq_true, if_false]
    rw [hentry]
    rfl

theorem translate_open_none (hva : ¬ Hits va) : miTranslateUserPage m openSpace va = none := by
  have hlow : miRoundDown (va % 2 ^ 48) pageSize < 2 ^ 47 := by
    simp only [Hits, miRoundDown, pageSize, kiUserSpaceLimit] at *
    omega
  have hge : ¬ miRoundDown (va % 2 ^ 48) pageSize < kiUserSpaceLimit := by
    simp only [Hits, miRoundDown, pageSize, kiUserSpaceLimit] at *
    omega
  simp only [miTranslateUserPage, if_pos hlow]
  exact if_neg hge

theorem writableLeaf_open (hm : Open p m) :
    (Hits va → writableLeaf m p openSpace va = .ok (m, some openPte)) ∧
      (¬ Hits va → writableLeaf m p openSpace va = .ok (m, none)) := by
  refine ⟨fun hva => ?_, fun hva => ?_⟩
  · unfold writableLeaf
    rw [translate_open hm hva]
    rfl
  · unfold writableLeaf
    rw [translate_open_none hva]

theorem store_open (hm : Open p m) (offset : Nat) (byte : UInt8) :
    Open p { m with phys := m.phys.store openPte.frame offset byte } := by
  refine ⟨hm.top, ?_, hm.space⟩
  intro frame h1 h3
  have hne : frame ≠ openPte.frame := by simp only [openPte]; omega
  simp only [Physical.store, Function.update_of_ne hne]
  exact hm.tables frame h1 h3

theorem copyIn_open {source : Machine → Nat → UInt8} (hm : Open p m) (offset done n : Nat) :
    Open p (copyIn source openPte.frame offset done n m) := by
  induction n generalizing offset done m with
  | zero => exact hm
  | succ n ih => exact ih (store_open hm _ _) _ _

/-- A copy in the open machine writes as long as the walk finds pages. -/
theorem copyToLoop_open (source : Machine → Nat → UInt8) (base length : Nat) {fuel : Nat}
    (written : Nat) (hm : Open p m) (hfuel : length - written ≤ fuel) :
    ∃ m' written', copyToLoop source p base length fuel written m = .ok (m', written') ∧
      Open p m' ∧ written ≤ written' ∧
      ∀ k ≤ length, (∀ j, written ≤ j → j < k → Hits (base + j)) → k ≤ written' ∨ k ≤ written := by
  induction fuel generalizing written m with
  | zero => exact ⟨m, written, rfl, hm, Nat.le_refl _, fun k hk _ => .inr (by omega)⟩
  | succ fuel ih =>
    unfold copyToLoop
    split
    case isTrue hdone =>
      exact ⟨m, written, rfl, hm, Nat.le_refl _, fun k hk _ => .inr (by omega)⟩
    case isFalse hmore =>
      simp only [hm.space]
      have hpage : Hits (miRoundDown (uint64 (base + written)) pageSize) ↔ Hits (base + written) := by
        simp only [Hits, miRoundDown, uint64, pageSize, kiUserSpaceLimit]
        omega
      by_cases hhits : Hits (base + written)
      · rw [(writableLeaf_open hm).1 (hpage.mpr hhits)]
        have hpos : 0 < chunkAt (uint64 (base + written)) (length - written) := by
          simp only [chunkAt, pageSize]
          omega
        obtain ⟨m', written', hloop, hopen, hle, hreach⟩ := ih
          (written + chunkAt (uint64 (base + written)) (length - written))
          (copyIn_open hm (uint64 (base + written) % pageSize) written
            (chunkAt (uint64 (base + written)) (length - written))) (by omega)
        refine ⟨m', written', hloop, hopen, by omega, ?_⟩
        intro k hk hall
        have := hreach k hk (fun j hj => hall j (by omega))
        omega
      · rw [(writableLeaf_open hm).2 (fun h => hhits (hpage.mp h))]
        refine ⟨m, written, rfl, hm, Nat.le_refl _, ?_⟩
        intro k hk hall
        by_contra hlt
        exact hhits (hall written (Nat.le_refl _) (by omega))

/-! ## Delivery in the open machine -/

structure Exposed (p : Nat) (d d' : Run) : Prop where
  machine : Open p d'.machine
  writes : ∀ w ∈ d.writes, w ∈ d'.writes

variable {d' : Run}

theorem Exposed.trans {d'' : Run} (h : Exposed p d d') (h' : Exposed p d' d'') :
    Exposed p d d'' :=
  ⟨h'.machine, fun w hw => h'.writes w (h.writes w hw)⟩

theorem afdCopyToOwner_open (hm : Open p d.machine) (q : Pointer) (va : Nat) (source : List UInt8) :
    ∃ d', afdCopyToOwner d p q va source = .ok d' ∧ Exposed p d d' ∧
      ∃ w ∈ d'.writes, w.pointer = q ∧ w.base = va ∧
        ∀ k ≤ source.length, (∀ j < k, Hits (va + j)) → k ≤ w.count := by
  obtain ⟨m', count, hcopy, hopen, -, hreach⟩ := copyToLoop_open
    (fun _ i => source.getD i 0) va source.length 0 hm (Nat.le_refl _)
  refine ⟨⟨m', d.writes ++ [⟨q, va, count, m'⟩]⟩, ?_,
    ⟨hopen, fun w hw => mem_append_left _ hw⟩, ⟨q, va, count, m'⟩, by simp, rfl, rfl, ?_⟩
  · unfold afdCopyToOwner miCopyToUserRangeChecked
    rw [Nat.sub_zero] at hcopy
    rw [hcopy]
    rfl
  · intro k hk hall
    rcases hreach k hk (fun j _ hj => hall j hj) with h | h
    · exact h
    · exact h.trans (Nat.zero_le _)

def Touched (d : Run) (va : Nat) : Prop := ∃ w ∈ d.writes, w.base % 2 ^ 48 = va % 2 ^ 48 ∧ 0 < w.count

theorem Touched.exposed (h : Touched d va) (hd : Exposed p d d') : Touched d' va := by
  obtain ⟨w, hw, hrest⟩ := h
  exact ⟨w, hd.writes w hw, hrest⟩

theorem consumeSegment_open (index : Nat) (seg : Seg) {fuel : Nat} (segDone : Nat)
    (rest : List UInt8) (hm : Open p d.machine) (hfuel : rest.length ≤ fuel) :
    ∃ d', consumeSegment p index seg fuel segDone rest d =
        .ok (d', rest.drop (seg.length - segDone)) ∧ Exposed p d d' ∧
      ∀ k, segDone + ringChunk * k < seg.length → ringChunk * k < rest.length →
        Hits (seg.base + (segDone + ringChunk * k)) →
        Touched d' (seg.base + (segDone + ringChunk * k)) := by
  induction fuel generalizing segDone rest d with
  | zero =>
    have hnil := length_eq_zero_iff.mp (Nat.le_zero.mp hfuel)
    subst hnil
    refine ⟨d, by rw [drop_nil]; rfl, ⟨hm, fun _ hw => hw⟩, ?_⟩
    intro k _ hk
    exact absurd hk (Nat.not_lt_zero _)
  | succ fuel ih =>
    have hchunk : 0 < ringChunk := by decide
    unfold consumeSegment
    split
    case isTrue hdone =>
      refine ⟨d, ?_, ⟨hm, fun _ hw => hw⟩, ?_⟩
      · rcases hdone with hdone | hdone
        · rw [Nat.sub_eq_zero_of_le hdone, drop_zero]
        · rw [hdone, drop_nil]
      · intro k hk1 hk2
        rcases hdone with hdone | hdone
        · omega
        · rw [hdone] at hk2
          exact absurd hk2 (Nat.not_lt_zero _)
    case isFalse hmore =>
      obtain ⟨hlt, hrest⟩ := not_or.mp hmore
      have hpos : 0 < rest.length := length_pos_iff.mpr hrest
      obtain ⟨take, htake⟩ : ∃ take, take = min (min (seg.length - segDone) ringChunk) rest.length :=
        ⟨_, rfl⟩
      simp only [← htake]
      have hlength : (rest.take take).length = take := by
        rw [length_take]; omega
      obtain ⟨d1, hcopy, hexposed, w, hw, -, hbase, hcount⟩ := afdCopyToOwner_open hm
        (.segment index) (uint64 (seg.base + segDone)) (rest.take take)
      obtain ⟨d2, hloop, hexposed', htouched⟩ := ih (segDone + take) (rest.drop take)
        hexposed.machine (by rw [length_drop]; omega)
      refine ⟨d2, ?_, hexposed.trans hexposed', ?_⟩
      · rw [hcopy]
        refine hloop.trans ?_
        rw [drop_drop]
        congr 2
        rcases Nat.lt_or_ge take rest.length with hshort | hshort
        · congr 1
          omega
        · rw [drop_eq_nil_of_le (by omega), drop_eq_nil_of_le (by omega)]
      · intro k hk1 hk2 hhits
        rcases k with _ | k
        · rw [Nat.mul_zero, Nat.add_zero] at hhits ⊢
          refine Touched.exposed ⟨w, hw, by rw [hbase, uint64_mod], ?_⟩ hexposed'
          refine hcount 1 (by omega) ?_
          intro j hj
          have hj0 : j = 0 := by omega
          subst hj0
          simp only [Hits, Nat.add_zero, uint64_mod] at hhits ⊢
          exact hhits
        · rw [Nat.mul_succ] at hk1 hk2 hhits ⊢
          have hwhole : take = ringChunk := by omega
          rw [show segDone + (ringChunk * k + ringChunk) = segDone + take + ringChunk * k by
            omega] at hhits ⊢
          exact htouched k (by omega) (by rw [length_drop]; omega) hhits

theorem consumeSegments_open (index : Nat) (segs : List Seg) (rest : List UInt8)
    (hm : Open p d.machine) :
    ∃ d' rest', consumeSegments p index segs rest d = .ok (d', rest') ∧ Exposed p d d' ∧
      ∀ (i : Nat) (seg : Seg), segs[i]? = some seg → ∀ k, ringChunk * k < seg.length →
        lengthBefore segs i + ringChunk * k < rest.length →
        Hits (seg.base + ringChunk * k) → Touched d' (seg.base + ringChunk * k) := by
  induction segs generalizing index rest d with
  | nil => exact ⟨d, rest, rfl, ⟨hm, fun _ hw => hw⟩, fun i seg hseg => nomatch hseg⟩
  | cons seg segs ih =>
    unfold consumeSegments
    split
    case isTrue hrest =>
      refine ⟨d, rest, rfl, ⟨hm, fun _ hw => hw⟩, ?_⟩
      intro i seg' _ k _ hk
      rw [hrest] at hk
      exact absurd hk (Nat.not_lt_zero _)
    case isFalse =>
      obtain ⟨d1, hsegment, hexposed, htouched⟩ := consumeSegment_open index seg 0 rest hm
        (Nat.le_refl _)
      obtain ⟨d2, rest2, hloop, hexposed', htouched'⟩ := ih (index + 1)
        (rest.drop (seg.length - 0)) hexposed.machine
      refine ⟨d2, rest2, by rw [hsegment]; exact hloop, hexposed.trans hexposed', ?_⟩
      intro i seg' hseg' k hk hreach hhits
      rcases i with _ | i
      · cases hseg'
        have := htouched k (by omega) (by simpa [lengthBefore] using hreach)
          (by rwa [Nat.zero_add])
        rw [Nat.zero_add] at this
        exact this.exposed hexposed'
      · refine htouched' i seg' hseg' k hk ?_ hhits
        rw [lengthBefore_cons] at hreach
        rw [length_drop]
        omega

theorem deliverSegments_open (index : Nat) (segs : List Seg) (rest : List UInt8)
    (hm : Open p d.machine) :
    ∃ d', deliverSegments p index segs rest d = .ok d' ∧ Exposed p d d' ∧
      ∀ (i : Nat) (seg : Seg), segs[i]? = some seg → seg.length ≠ 0 →
        lengthBefore segs i < rest.length → Hits seg.base → Touched d' seg.base := by
  induction segs generalizing index rest d with
  | nil => exact ⟨d, rfl, ⟨hm, fun _ hw => hw⟩, fun i seg hseg => nomatch hseg⟩
  | cons seg segs ih =>
    unfold deliverSegments
    split
    case isTrue hrest =>
      refine ⟨d, rfl, ⟨hm, fun _ hw => hw⟩, ?_⟩
      intro i seg' _ _ hk
      rw [hrest] at hk
      exact absurd hk (Nat.not_lt_zero _)
    case isFalse hrest =>
      have hpos : 0 < rest.length := length_pos_iff.mpr hrest
      obtain ⟨d1, hcopy, hexposed, w, hw, -, hbase, hcount⟩ := afdCopyToOwner_open hm
        (.segment index) seg.base (rest.take seg.length)
      obtain ⟨d2, hloop, hexposed', htouched⟩ := ih (index + 1)
        (rest.drop seg.length) hexposed.machine
      refine ⟨d2, by rw [hcopy]; exact hloop, hexposed.trans hexposed', ?_⟩
      intro i seg' hseg' hne hreach hhits
      rcases i with _ | i
      · cases hseg'
        refine Touched.exposed ⟨w, hw, by rw [hbase], ?_⟩ hexposed'
        refine hcount 1 (by rw [length_take]; omega) ?_
        intro j hj
        have hj0 : j = 0 := by omega
        subst hj0
        exact hhits
      · refine htouched i seg' hseg' hne ?_ hhits
        rw [lengthBefore_cons] at hreach
        rw [length_drop]
        omega

theorem deliverSender_open (addrPtr addrLenPtr : Nat) (dgram : Dgram) (hm : Open p d.machine) :
    ∃ d', deliverSender p addrPtr addrLenPtr dgram d = .ok d' ∧ Exposed p d d' ∧
      (addrPtr ≠ 0 → (∃ w ∈ d'.writes, w.pointer = .address ∧ w.base = addrPtr ∧
          ∀ k ≤ 16, (∀ j < k, Hits (addrPtr + j)) → k ≤ w.count) ∧
        (addrLenPtr ≠ 0 → Hits addrLenPtr → Touched d' addrLenPtr)) := by
  unfold deliverSender
  split
  case isTrue hzero =>
    exact ⟨d, rfl, ⟨hm, fun _ hw => hw⟩, fun hne => absurd hzero hne⟩
  case isFalse =>
    have hlength : (afdFillSockaddr dgram.address dgram.hostPort).length = 16 := by
      simp [afdFillSockaddr]
    obtain ⟨d1, hcopy, hexposed, w, hw, hpointer, hbase, hcount⟩ := afdCopyToOwner_open hm .address
      addrPtr (afdFillSockaddr dgram.address dgram.hostPort)
    rw [hlength] at hcount
    rw [hcopy]
    by_cases hptr : addrLenPtr = 0
    · refine ⟨d1, if_pos hptr, hexposed, fun _ => ⟨⟨w, hw, hpointer, hbase, hcount⟩, ?_⟩⟩
      intro hne
      exact absurd hptr hne
    · obtain ⟨d2, hcopy', hexposed', w', hw', -, hbase', hcount'⟩ :=
        afdCopyToOwner_open hexposed.machine .addressLength addrLenPtr (Bytes.le 4 16)
      refine ⟨d2, (if_neg hptr).trans hcopy', hexposed.trans hexposed', fun _ =>
        ⟨⟨w, hexposed'.writes w hw, hpointer, hbase, hcount⟩, fun _ hhits => ?_⟩⟩
      refine ⟨w', hw', by rw [hbase'], hcount' 1 (by rw [Bytes.length_le]; omega) ?_⟩
      intro j hj
      have hj0 : j = 0 := by omega
      subst hj0
      exact hhits

theorem iopCompletePendingRequest_open (userBuffer bufferLength : Nat) (kernelBuffer : List UInt8)
    (information : Nat) (hm : Open p d.machine) :
    ∃ d', iopCompletePendingRequest d p userBuffer bufferLength kernelBuffer information = .ok d' ∧
      Exposed p d d' := by
  unfold iopCompletePendingRequest
  split
  · obtain ⟨d1, hcopy, hexposed, -⟩ := afdCopyToOwner_open hm .output userBuffer
      (kernelBuffer.take (min information bufferLength))
    exact ⟨d1, hcopy, hexposed⟩
  · exact ⟨d, rfl, ⟨hm, fun _ hw => hw⟩⟩

/-! ## Requests in the open machine -/

theorem probePages_open {page n : Nat} (hm : Open p m) (hround : page % pageSize = 0)
    (hpages : page + n * pageSize ≤ kiUserSpaceLimit) :
    probePages true p page n m = .ok (m, statusSuccess) := by
  induction n generalizing page with
  | zero => rfl
  | succ n ih =>
    have hhits : Hits page := by
      left
      simp only [pageSize, kiUserSpaceLimit] at *
      omega
    rw [probePages]
    simp only [hm.space, translate_open hm hhits]
    refine ih ?_ ?_
    · rw [Nat.add_mod_right, hround]
    · rw [Nat.succ_mul] at hpages
      omega

theorem kiProbeRange_open {start length : Nat} (hm : Open p m) (hlength : length < 2 ^ 32)
    (hrange : kiIsUserRange start length = true) :
    kiProbeRange m p start length 1 true = .ok (m, statusSuccess) := by
  unfold kiProbeRange
  by_cases hzero : length = 0
  · rw [if_pos hzero]
  · rw [if_neg hzero, if_neg (by rw [Nat.mod_one]; exact not_not.mpr rfl),
      if_neg (by rw [hrange]; decide)]
    have hle := kiIsUserRange_le hlength hzero hrange
    refine probePages_open hm (by simp only [miRoundDown, pageSize]; omega) ?_
    simp only [miRoundDown, pageSize, kiUserSpaceLimit] at *
    omega

def emptySocket (type : SockType) : Socket where
  type
  connected := true

def fullSocket (type : SockType) : Socket where
  type
  connected := true
  ring := List.replicate afdRingCapacity 0
  dgramQueue := [⟨0, 0, List.replicate dgramLimit 0⟩]

theorem emptySocket_fits (type : SockType) : (emptySocket type).Fits :=
  ⟨Nat.zero_le _, fun _ hdgram => nomatch hdgram⟩

theorem fullSocket_fits (type : SockType) : (fullSocket type).Fits := by
  refine ⟨by simp [fullSocket], ?_⟩
  intro dgram hdgram
  simp only [fullSocket, mem_singleton] at hdgram
  simp [hdgram]

theorem afdRecvCommon_parks (type : SockType) (segs : List Seg) (msgFlags : Nat) (forceAsync : Bool)
    (addrPtr addrLenPtr : Nat) (d : Run) :
    ∃ y, afdRecvCommon {} (emptySocket type) p segs msgFlags forceAsync addrPtr addrLenPtr d = .ok y ∧
      y.parked = true ∧ y.status = statusPending := by
  cases type <;> exact ⟨_, rfl, rfl, rfl⟩

theorem afdCaptureSegments_eq {wsabufs : List Seg} (hne : wsabufs ≠ []) (hle : wsabufs.length ≤ 64) :
    afdCaptureSegments {} wsabufs = .ok wsabufs := by
  unfold afdCaptureSegments
  rw [if_neg]
  · rfl
  · rw [not_or, length_eq_zero_iff]
    exact ⟨hne, Nat.not_lt.mpr hle⟩

theorem iopDeviceControl_parks (p : Nat) {output outputLength : Nat} (sock : Socket)
    (verb : Run → Except Halt Served) (hlength : outputLength < 2 ^ 32)
    (hrange : kiIsUserRange output outputLength = true)
    (hverb : ∀ d, ∃ y, verb d = .ok y ∧ y.parked = true ∧ y.status = statusPending) :
    ∃ y, iopDeviceControl p output outputLength sock (openMachine p) verb = .ok y ∧
      y.parked = true := by
  obtain ⟨y, hy, hparked, hstatus⟩ := hverb ⟨openMachine p, []⟩
  refine ⟨y, ?_, hparked⟩
  unfold iopDeviceControl
  rw [kiProbeRange_open (openMachine_open p) hlength hrange]
  simp only [bind, Except.bind]
  rw [if_neg (by decide), hy]
  exact if_neg (fun h => h.2.1 hstatus)

theorem afdCompleteRecvLocked_stream {sock sock' : Socket} {request : ParkedRecv} {delivered : Nat}
    {d1 d2 : Run} (htype : sock.type = .stream) (hring : sock.ring ≠ [])
    (hread : request.isRead = false)
    (hconsume : afdRingConsume sock p request.segs false d = .ok (d1, sock', delivered))
    (hplace : iopCompletePendingRequest d1 p request.userBuffer request.bufferLength
      (List.replicate request.bufferLength 0) delivered = .ok d2) :
    afdCompleteRecvLocked sock p request d =
      .ok ⟨d2, afdFlushRecved sock', statusSuccess, delivered⟩ := by
  unfold afdCompleteRecvLocked
  cases hsock : sock.ring with
  | nil => exact absurd hsock hring
  | cons byte ring =>
    simp only [htype, hread, Bool.false_eq_true, if_false, hconsume]
    simp only [bind, Except.bind, hplace]

theorem afdCompleteRecvLocked_dgram {sock : Socket} {request : ParkedRecv} {dgram : Dgram}
    {queue : List Dgram} {x : Delivered} (htype : sock.type = .dgram)
    (hqueue : sock.dgramQueue = dgram :: queue)
    (hdeliver : afdDeliverDgram sock dgram queue p request.segs request.addrPtr request.addrLenPtr d =
      .ok x)
    (hplace : iopCompletePendingRequest x.run p request.userBuffer request.bufferLength
      (List.replicate request.bufferLength 0) x.information = .ok d') :
    afdCompleteRecvLocked sock p request d = .ok { x with run := d' } := by
  unfold afdCompleteRecvLocked
  simp only [htype, hqueue, hdeliver]
  simp only [bind, Except.bind, hplace]

theorem fullStream_open (request : ParkedRecv) (hread : request.isRead = false) :
    ∃ x, afdCompleteRecvLocked (fullSocket .stream) p request ⟨openMachine p, []⟩ = .ok x ∧
      ∀ (i : Nat) (seg : Seg), request.segs[i]? = some seg → ∀ k,
        ringChunk * k < seg.length → lengthBefore request.segs i + ringChunk * k < afdRingCapacity →
        Hits (seg.base + ringChunk * k) → Touched x.run (seg.base + ringChunk * k) := by
  obtain ⟨d1, rest, hconsume, hexposed, htouched⟩ := consumeSegments_open 0 request.segs
    (fullSocket .stream).ring (d := ⟨openMachine p, []⟩) (openMachine_open p)
  obtain ⟨d2, hplace, hexposed'⟩ := iopCompletePendingRequest_open request.userBuffer
    request.bufferLength (List.replicate request.bufferLength 0)
    ((fullSocket .stream).ring.length - rest.length) hexposed.machine
  have hring : (fullSocket .stream).ring ≠ [] := cons_ne_nil _ _
  obtain ⟨sock', hall⟩ : ∃ sock', afdRingConsume (fullSocket .stream) p request.segs false
      ⟨openMachine p, []⟩ = .ok (d1, sock', (fullSocket .stream).ring.length - rest.length) := by
    unfold afdRingConsume
    rw [hconsume]
    exact ⟨_, rfl⟩
  refine ⟨_, afdCompleteRecvLocked_stream rfl hring hread hall hplace, ?_⟩
  intro i seg hseg k hk hreach hhits
  refine (htouched i seg hseg k hk ?_ hhits).exposed hexposed'
  rwa [fullSocket, length_replicate]

theorem fullDgram_open (request : ParkedRecv) :
    ∃ x, afdCompleteRecvLocked (fullSocket .dgram) p request ⟨openMachine p, []⟩ = .ok x ∧
      (∀ (i : Nat) (seg : Seg), request.segs[i]? = some seg → seg.length ≠ 0 →
        lengthBefore request.segs i < min dgramLimit (capacityOf request.segs) →
        Hits seg.base → Touched x.run seg.base) ∧
      (request.addrPtr ≠ 0 → (∃ w ∈ x.run.writes, w.pointer = .address ∧
          w.base = request.addrPtr ∧
          ∀ k ≤ 16, (∀ j < k, Hits (request.addrPtr + j)) → k ≤ w.count) ∧
        (request.addrLenPtr ≠ 0 → Hits request.addrLenPtr →
          Touched x.run request.addrLenPtr)) := by
  obtain ⟨data, hdata⟩ : ∃ data : List UInt8, data = List.replicate dgramLimit 0 := ⟨_, rfl⟩
  obtain ⟨d1, hsegs, hexposed, htouched⟩ := deliverSegments_open 0 request.segs
    (data.take (min data.length (capacityOf request.segs))) (d := ⟨openMachine p, []⟩)
    (openMachine_open p)
  obtain ⟨d2, hsender, hexposed', hsent⟩ := deliverSender_open request.addrPtr request.addrLenPtr
    ⟨0, 0, data⟩ hexposed.machine
  obtain ⟨d3, hplace, hexposed''⟩ := iopCompletePendingRequest_open request.userBuffer
    request.bufferLength (List.replicate request.bufferLength 0)
    (min data.length (capacityOf request.segs)) hexposed'.machine
  obtain ⟨sock', status, hall⟩ : ∃ sock' status, afdDeliverDgram (fullSocket .dgram) ⟨0, 0, data⟩ []
      p request.segs request.addrPtr request.addrLenPtr ⟨openMachine p, []⟩ =
        .ok ⟨d2, sock', status, min data.length (capacityOf request.segs)⟩ := by
    unfold afdDeliverDgram
    simp only [bind, Except.bind, hsegs, hsender]
    exact ⟨_, _, rfl⟩
  refine ⟨_, afdCompleteRecvLocked_dgram rfl (by rw [hdata]; rfl) hall hplace, ?_, ?_⟩
  · intro i seg hseg hne hreach hhits
    refine ((htouched i seg hseg hne ?_ hhits).exposed hexposed').exposed hexposed''
    rw [length_take, hdata, length_replicate]
    omega
  · intro hne
    obtain ⟨⟨w, hw, hrest⟩, hlength⟩ := hsent hne
    exact ⟨⟨w, hexposed''.writes w hw, hrest⟩, fun hptr hhits => (hlength hptr hhits).exposed hexposed''⟩

/-! ## Requests that are not safe -/

theorem Run.Confined.below {given : Pointer → Nat} (h : d.Confined p given) (ht : Touched d va) :
    va % 2 ^ 48 < 2 ^ 47 := by
  obtain ⟨w, hw, hbase, hcount⟩ := ht
  rw [← hbase]
  exact (h.inside w hw 0 hcount).1

theorem count_le_through {w : Write} (hw : w ∈ d.writes) : w.count ≤ d.through w.pointer := by
  apply single_le_sum (fun _ _ => Nat.zero_le _)
  exact List.mem_map_of_mem (mem_filter.mpr ⟨hw, by simp⟩)

theorem recvSafe_of_confined {type : SockType} (request : ParkedRecv) {addrLength : Int}
    {given : Pointer → Nat} (hread : request.isRead = false)
    (hgiven : given .address = givenLength request.addrLenPtr addrLength ∨ request.addrPtr = 0)
    (h : ∀ x, afdCompleteRecvLocked (fullSocket type) p request ⟨openMachine p, []⟩ = .ok x →
      x.run.Confined p given) :
    RecvSafe type request.segs request.addrPtr request.addrLenPtr addrLength := by
  cases type with
  | stream =>
    obtain ⟨x, hx, htouched⟩ := fullStream_open (p := p) request hread
    refine ⟨?_, fun h => nomatch h⟩
    intro i seg hseg k hk hreach
    by_contra hhigh
    have hhits : Hits (seg.base + ringChunk * k) := .inr (Nat.le_of_not_lt hhigh)
    exact hhigh ((h x hx).below (htouched i seg hseg k hk hreach hhits))
  | dgram =>
    obtain ⟨x, hx, htouched, hsent⟩ := fullDgram_open (p := p) request
    have hconfined := h x hx
    refine ⟨?_, fun _ hne => ?_⟩
    · intro i seg hseg hne hreach
      by_contra hhigh
      exact hhigh (hconfined.below (htouched i seg hseg hne hreach (.inr (Nat.le_of_not_lt hhigh))))
    · obtain ⟨⟨w, hw, hpointer, hbase, hcount⟩, hlength⟩ := hsent hne
      have hpointer' : request.addrPtr % 2 ^ 48 < 2 ^ 47 := by
        by_contra hhigh
        refine hhigh (hconfined.below ⟨w, hw, by rw [hbase], hcount 1 (by omega) ?_⟩)
        intro j hj
        have hj0 : j = 0 := by omega
        subst hj0
        exact .inr (Nat.le_of_not_lt hhigh)
      refine ⟨hpointer', ?_, ?_⟩
      · by_contra hshort
        obtain ⟨h16, hlimit⟩ := not_or.mp hshort
        -- the byte past what was given is written too
        have hover := hcount (givenLength request.addrLenPtr addrLength + 1) (by omega) (by
          intro j hj
          left
          simp only [kiUserSpaceLimit] at *
          omega)
        have hle := (count_le_through hw).trans (hconfined.counted w.pointer)
        rw [hpointer, hgiven.resolve_right hne] at hle
        omega
      · intro hptr
        by_contra hhigh
        exact hhigh (hconfined.below (hlength hptr (.inr (Nat.le_of_not_lt hhigh))))

theorem Request.Confined.safe {r : Request} {type : SockType} (h : r.Confined p type) :
    r.Safe type := by
  have hopen := (openMachine_open p).userTables
  cases r with
  | recv wsabufs recvFlags msgFlags output outputLength =>
    intro hne hle hflags hrange
    obtain ⟨y, hserve, hparked⟩ := iopDeviceControl_parks p (emptySocket type)
      (afdRecvIoctl {} (emptySocket type) p wsabufs recvFlags msgFlags)
      outputLength.toNat_lt hrange (by
        intro d
        unfold afdRecvIoctl
        rw [if_neg (by simp [emptySocket]), if_neg (not_not.mpr hflags), afdCaptureSegments_eq hne hle]
        exact afdRecvCommon_parks ..)
    have hfinish := (h {} (openMachine p) (emptySocket type) y hopen rfl (emptySocket_fits type)
      hserve).2 hparked {} (openMachine p) (fullSocket type) (.ok 0)
    have hsafe : RecvSafe type wsabufs 0 0 0 := recvSafe_of_confined
      ({ segs := wsabufs, userBuffer := output, bufferLength := outputLength.toNat })
      rfl (.inr rfl) (fun x hx => hfinish x.run hopen rfl (fullSocket_fits type) (by
        simp only [finish, hx]
        rfl))
    exact hsafe.segs
  | recvMsg wsabufs wsFlags forceAsync addrPtr addrLenPtr addrLength output outputLength =>
    intro hne hle hflag hrange
    obtain ⟨y, hserve, hparked⟩ := iopDeviceControl_parks p (emptySocket type)
      (afdRecvMsg {} (emptySocket type) p wsabufs wsFlags forceAsync addrPtr addrLenPtr)
      outputLength.toNat_lt hrange (by
        intro d
        unfold afdRecvMsg
        rw [if_neg (by simp [emptySocket]), if_neg (by decide), if_neg (by rw [hflag]; decide),
          afdCaptureSegments_eq hne hle]
        exact afdRecvCommon_parks ..)
    have hfinish := (h {} (openMachine p) (emptySocket type) y hopen rfl (emptySocket_fits type)
      hserve).2 hparked {} (openMachine p) (fullSocket type) (.ok 0)
    have hsafe : RecvSafe type wsabufs addrPtr addrLenPtr addrLength := recvSafe_of_confined
      ({ segs := wsabufs, addrPtr, addrLenPtr, userBuffer := output,
         bufferLength := outputLength.toNat })
      rfl (.inl rfl) (fun x hx => hfinish x.run hopen rfl (fullSocket_fits type) (by
        simp only [finish, hx]
        rfl))
    exact ⟨hsafe.segs, hsafe.sender⟩
  | accept acceptInto output outputLength => trivial
  | read synchronousIo buffer length => trivial

/-- Socket receives write only user memory, and no more than was given, exactly when their addresses
are safe. -/
theorem receive_confined_iff (r : Request) (p : Nat) (type : SockType) :
    r.Confined p type ↔ r.Safe type :=
  ⟨fun h => h.safe, fun h => h.confined⟩

/-- Four bytes received to an address of the kernel, and a sender asked for in a buffer of four
bytes. -/
theorem receive_not_confined :
    ¬ (Request.recv [⟨0xffffffff80100000, 4⟩] 0 afdMsgNotOob 0 0).Confined 0 .stream ∧
    ¬ (Request.recvMsg [⟨0x20000, 4⟩] 0 false 0x30000 0x40000 4 0 0).Confined 0 .dgram := by
  refine ⟨fun h => ?_, fun h => ?_⟩
  · have hsafe := h.safe (cons_ne_nil _ _) (by decide) (by decide) (by decide)
    exact absurd (hsafe 0 _ rfl 0 (by decide) (by decide)) (by decide)
  · have hsafe := (h.safe (cons_ne_nil _ _) (by decide) (by decide) (by decide)).2 rfl
      (by decide)
    exact absurd hsafe.length (by decide)

end Proskrnl.Afd
