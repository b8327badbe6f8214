import Proskrnl.Cm.Image

/-!
# Torn appends

What the RECOVERY paragraph of `kernel/cm/hive.c` promises: a log that was cut short replays to the
tree of the records in front of the cut. A record that is refused ends the replay, but two of the
operations change the tree before they have looked at the whole record, a CREATE_KEY with a reserved
key flag and a SET_VALUES with a malformed tail; `Clean` says that no such record is met.
-/

namespace Proskrnl.Cm

open Bytes ListUpdate List Option

/-! ## Framed records -/

/-- A record as it stands in a log: whole, aligned and with its checksum. -/
structure Framed (b : List UInt8) : Prop where
  size : 24 ≤ b.length
  aligned : b.length % 8 = 0
  length : field b 0 4 = b.length
  checksum : (kiCrc32 (b.drop 8)).toNat = field b 4 4

variable {b : List UInt8} {n : Nat} {bs : List (List UInt8)} {f : Key → Key}

theorem take_drop_append (rest : List UInt8) {off : Nat}
    (h : off + n ≤ b.length) : ((b ++ rest).drop off).take n = (b.drop off).take n := by
  rw [drop_append_of_le_length (by omega), take_append_of_le_length (by simp; omega)]

theorem Framed.read_append (h : Framed b) (rest : List UInt8) :
    cmpReadRecord (b ++ rest) = (cmpReadRecord b).map fun r => (r.1, rest) := by
  have hsize := h.size
  have hf : ∀ off w, off + w ≤ 24 → field (b ++ rest) off w = field b off w := fun off w hw =>
    field_append_left rest (by omega)
  have hcrc : ((b ++ rest).drop 8).take (b.length - 8) = (b.drop 8).take (b.length - 8) :=
    take_drop_append rest (by omega)
  unfold cmpReadRecord
  simp only [hf 0 4 (by omega), hf 4 4 (by omega), hf 10 2 (by omega), hf 12 2 (by omega),
    hf 8 1 (by omega), hf 9 1 (by omega), hf 14 2 (by omega), hf 16 8 (by omega), h.length, hcrc]
  have hshort : ¬ (b ++ rest).length < 24 := by rw [length_append]; omega
  have hlong : ¬ (b.length < 24 ∨ b.length % 8 ≠ 0 ∨ b.length > (b ++ rest).length) := by
    have := h.aligned
    rw [length_append]
    omega
  have hlong' : ¬ (b.length < 24 ∨ b.length % 8 ≠ 0 ∨ b.length > b.length) := by
    have := h.aligned
    omega
  rw [if_neg hshort, if_neg hlong, if_neg (Nat.not_lt.mpr hsize), if_neg hlong']
  split
  · rfl
  split
  · rfl
  split
  · rfl
  case isFalse htail =>
    have hround := le_roundUp8 (24 + 2 * field b 10 2)
    have hpath : 2 * field b 10 2 % 65536 ≤ 2 * field b 10 2 := Nat.mod_le _ _
    rw [take_drop_append rest (by omega), take_drop_append rest (by omega), drop_left' rfl]
    rfl

theorem Framed.read_take (h : Framed b) (hn : n < b.length) :
    cmpReadRecord (b.take n) = none := by
  have hlen : (b.take n).length = n := by rw [length_take]; omega
  unfold cmpReadRecord
  split
  · rfl
  case isFalse hshort =>
    rw [hlen] at hshort
    have hfield : field (b.take n) 0 4 = b.length := by
      rw [← h.length]
      conv_rhs => rw [← take_append_drop n b]
      exact (field_append_left _ (by omega)).symm
    simp only [hfield, hlen]
    exact if_pos (.inr (.inr hn))

theorem cmpReadRecord_zeros (n : Nat) : cmpReadRecord (List.replicate n 0) = none := by
  unfold cmpReadRecord
  split
  · rfl
  · have hfield : field (List.replicate n 0) 0 4 = 0 := by
      simp only [field, drop_zero, take_replicate]
      generalize min 4 n = k
      induction k with
      | zero => rfl
      | succ k ih => rw [replicate_succ, ofLe, ih]; rfl
    simp only [hfield]
    exact if_pos (.inl (by decide))

def replayFramed (now : UInt64) (depth : Nat) : Key → List (List UInt8) → Key
  | top, [] => top
  | top, b :: bs =>
    match cmpReadRecord b with
    | none => top
    | some (record, _) =>
      match cmpApplyRecord now depth top record with
      | (top', true) => replayFramed now depth top' bs
      | (top', false) => top'

/-- The fold of the records of a log, up to the first that is not understood or refused. -/
def foldFramed (now : UInt64) (depth : Nat) : Key → List (List UInt8) → Key
  | top, [] => top
  | top, b :: bs =>
    match cmpReadRecord b with
    | none => top
    | some (record, _) =>
      match cmpApplyRecord now depth top record with
      | (top', true) => foldFramed now depth top' bs
      | (_, false) => top

theorem cmpReplayRecords_framed {now : UInt64} {depth rounds : Nat} {top : Key}
    {rest : List UInt8} {applied : Nat} (hbs : ∀ b ∈ bs, Framed b)
    (hrest : cmpReadRecord rest = none) (hrounds : bs.length ≤ rounds) :
    (cmpReplayRecords now depth rounds top (bs.flatten ++ rest) applied).1 =
      replayFramed now depth top bs := by
  induction bs generalizing rounds top applied with
  | nil =>
    cases rounds with
    | zero => rfl
    | succ rounds => rw [flatten_nil, nil_append, cmpReplayRecords, hrest]; rfl
  | cons b bs ih =>
    cases rounds with
    | zero => exact absurd hrounds (Nat.not_succ_le_zero _)
    | succ rounds =>
      have hb := hbs b mem_cons_self
      rw [flatten_cons, append_assoc, cmpReplayRecords, hb.read_append,
        replayFramed]
      cases hread : cmpReadRecord b with
      | none => rfl
      | some r =>
        simp only [map_some]
        cases happly : cmpApplyRecord now depth top r.1 with
        | mk top' accepted =>
          cases accepted with
          | true =>
            exact ih (fun b hb => hbs b (.tail _ hb)) (Nat.le_of_succ_le_succ hrounds)
          | false => rfl

/-! ## What a refused record leaves behind -/

/-- The values of a SET_VALUES tail in front of the first that is malformed. -/
def cmpTailValues : Nat → List UInt8 → List Value
  | 0, _ => []
  | count + 1, cursor =>
    if cursor.length < 12 then []
    else
      let nameBytes := 2 * field cursor 0 2
      let dataBytes := field cursor 8 4
      let used := roundUp8 (12 + nameBytes + dataBytes)
      if used > cursor.length then []
      else
        { name := toUnits ((cursor.drop 12).take (nameBytes % 65536))
          type := UInt32.ofNat (field cursor 4 4)
          data := (cursor.drop (12 + nameBytes)).take dataBytes } ::
          cmpTailValues count (cursor.drop used)

/-- `CmpSetValue` for each of some values. -/
def setValuesIn (values : List Value) (new : List Value) : List Value :=
  new.foldl (fun values v => setValueIn values v.name v.type v.data) values

theorem cmpApplyValues_eq (count : Nat) (cursor : List UInt8) (node : Key) :
    (cmpApplyValues count cursor node).1 =
      { node with values := setValuesIn node.values (cmpTailValues count cursor) } := by
  induction count generalizing cursor node with
  | zero => rw [cmpApplyValues, cmpTailValues, setValuesIn, foldl_nil, Key.eta]
  | succ count ih =>
    rw [cmpApplyValues, cmpTailValues]
    simp only
    split
    · rw [setValuesIn, foldl_nil, Key.eta]
    split
    · rw [setValuesIn, foldl_nil, Key.eta]
    · rw [ih]
      rfl

/-- A refused record leaves the tree as it is: a CREATE_KEY finds its key, with the stamp and the
link flag it carries; a SET_VALUES finds its stamp, and the values in front of the malformed one. -/
structure LeavesNothing (now : UInt64) (depth : Nat) (top : Key) (record : Record) : Prop where
  create : record.op = cmpOpCreateKey →
    (cmpResolveRecordKey now depth top record.path true).isSome →
    ∃ p node, cmpResolveRecordKey now depth top record.path false = some (top, p) ∧
      top.get? p = some node ∧ node.lastWriteTime = record.lastWriteTime ∧
      node.isLink = decide (record.keyFlags &&& 1 ≠ 0)
  set : record.op = cmpOpSetValues → ∀ top' p node,
    cmpResolveRecordKey now depth top record.path false = some (top', p) →
    top.get? p = some node → node.lastWriteTime = record.lastWriteTime ∧
      setValuesIn node.values (cmpTailValues record.valueCount record.tail) = node.values

/-- The first record of a log that is refused leaves nothing behind. -/
def Clean (now : UInt64) (depth : Nat) : Key → List (List UInt8) → Prop
  | _, [] => True
  | top, b :: bs =>
    match cmpReadRecord b with
    | none => True
    | some (record, _) =>
      match cmpApplyRecord now depth top record with
      | (top', true) => Clean now depth top' bs
      | (_, false) => LeavesNothing now depth top record

/-! ## Resolving the key of a record -/

variable {now : UInt64} {depth : Nat} {top top' : Key} {record : Record} {path : WStr} {p : Pos}

def resolveParent (now : UInt64) (depth : Nat) (top : Key) (path : WStr) :
    Option (Pos × Key × WStr) :=
  let leaf := pathLeaf path
  let split := path.length - leaf.length
  let parent :=
    if split > 0 then cmpWalkPathCounted now depth top (path.take (split - 1)) false
    else some (top, [])
  match parent with
  | none => none
  | some (_, p) => if leaf = [] then none else (top.get? p).map fun node => (p, node, leaf)

theorem no_separator_pathLeaf (path : WStr) : backslash ∉ pathLeaf path := by
  intro h
  rw [pathLeaf, mem_reverse] at h
  have := mem_takeWhile_imp h
  simp at this

theorem cmpWalkSegments_one {leaf : WStr} (hleaf : leaf ≠ []) (create : Bool) (node : Key) :
    cmpWalkSegments now create depth [leaf] node =
      match cmpFindSubkey node leaf with
      | some i => some (node, [i])
      | none =>
        if create = true ∧ depth < cmpHiveMaxDepth then
          some ({ node with subkeys := cmpLinkSubkeySorted node.subkeys (newNode now leaf) },
            [sortedIndex node.subkeys leaf])
        else none := by
  rw [cmpWalkSegments, if_neg hleaf]
  cases hfind : cmpFindSubkey node leaf with
  | some i =>
    obtain ⟨l1, c, l2, hsub, rfl, -, -⟩ := cmpFindSubkey_eq_some_iff.mp hfind
    simp only [hsub, getElem?_append_cons, cmpWalkSegments, map_some, set_append_cons]
    rw [← hsub, Key.eta]
  | none =>
    cases create with
    | false => simp
    | true =>
      obtain ⟨l1, l2, hsub, hlen, hins⟩ := link_eq_append node.subkeys leaf
      by_cases hdepth : depth ≥ cmpHiveMaxDepth
      · simp [cmpAllocateNode, hdepth, Nat.not_lt.mpr hdepth]
      · simp only [if_true, cmpAllocateNode, if_neg hdepth, Nat.lt_of_not_le hdepth, and_self,
          hins (newNode now leaf) rfl, ← hlen, getElem?_append_cons, cmpWalkSegments,
          map_some, set_append_cons]

theorem cmpResolveRecordKey_eq (hpath : path ≠ []) (create : Bool) :
    cmpResolveRecordKey now depth top path create =
      (resolveParent now depth top path).bind fun (q, node, leaf) =>
        (cmpWalkSegments now create (depth + q.length) [leaf] node).map fun r =>
          (top.modifyAt (fun _ => r.1) q, q ++ r.2) := by
  rw [cmpResolveRecordKey, if_neg hpath, resolveParent]
  simp only
  generalize (if path.length - (pathLeaf path).length > 0 then
    cmpWalkPathCounted now depth top (path.take (path.length - (pathLeaf path).length - 1)) false
    else some (top, [])) = parent
  cases parent with
  | none => rfl
  | some r =>
    simp only
    by_cases hleaf : pathLeaf path = []
    · rw [if_pos hleaf, if_pos hleaf]
      rfl
    · rw [if_neg hleaf, if_neg hleaf]
      cases hget : top.get? r.2 with
      | none => rfl
      | some node =>
        simp only [cmpWalkPathCounted, map_some, bind_some,
          pathSegments_of_no_separator hleaf (no_separator_pathLeaf path)]

theorem resolveParent_some {q : Pos} {node : Key} {leaf : WStr}
    (h : resolveParent now depth top path = some (q, node, leaf)) :
    top.get? q = some node ∧ leaf ≠ [] := by
  rw [resolveParent] at h
  split at h
  · cases h
  · split at h
    · cases h
    case isFalse hleaf =>
      obtain ⟨n, hn, h⟩ := map_eq_some_iff.mp h
      cases h
      exact ⟨hn, hleaf⟩

theorem cmpResolveRecordKey_cases {create : Bool}
    (h : cmpResolveRecordKey now depth top path create = some (top', p)) :
    (top' = top ∧ (top.get? p).isSome ∧
      ∀ c, cmpResolveRecordKey now depth top path c = some (top, p)) ∨
    (create = true ∧ cmpResolveRecordKey now depth top path false = none ∧
      ∃ q i node child, p = q ++ [i] ∧ top.get? q = some node ∧
        top' = top.modifyAt (fun _ =>
          { node with subkeys := cmpLinkSubkeySorted node.subkeys child }) q) := by
  rcases eq_or_ne path [] with rfl | hpath
  · cases h
    exact .inl ⟨rfl, rfl, fun _ => rfl⟩
  · rw [cmpResolveRecordKey_eq hpath] at h
    obtain ⟨⟨q, node, leaf⟩, hparent, h⟩ := bind_eq_some_iff.mp h
    obtain ⟨hget, hleaf⟩ := resolveParent_some hparent
    have hall : ∀ c, cmpResolveRecordKey now depth top path c =
        (cmpWalkSegments now c (depth + q.length) [leaf] node).map fun r =>
          (top.modifyAt (fun _ => r.1) q, q ++ r.2) := by
      intro c
      rw [cmpResolveRecordKey_eq hpath, hparent]
      rfl
    simp only [cmpWalkSegments_one hleaf] at h hall
    cases hfind : cmpFindSubkey node leaf with
    | some i =>
      simp only [hfind, map_some, Key.modifyAt_self hget] at h hall
      cases h
      refine .inl ⟨rfl, ?_, hall⟩
      obtain ⟨l1, c, l2, hsub, rfl, -, -⟩ := cmpFindSubkey_eq_some_iff.mp hfind
      simp [Key.get?_append, hget, Key.get?, hsub]
    | none =>
      simp only [hfind] at h hall
      split at h
      case isFalse => cases h
      case isTrue hcreate =>
        cases h
        exact .inr ⟨hcreate.1, by rw [hall false]; simp, q, _, node, _, rfl, hget, rfl⟩

theorem subkeys_length_modifyAt_child {k : Key} {i : Nat} :
    (k.modifyAt f [i]).subkeys.length = k.subkeys.length := by
  simp [Key.modifyAt]

theorem create_ne {q : Pos} {i : Nat} {node child : Key} (hget : top.get? q = some node) :
    (top.modifyAt (fun _ => { node with subkeys := cmpLinkSubkeySorted node.subkeys child })
      q).modifyAt f (q ++ [i]) ≠ top := by
  intro h
  have hnew := Key.get?_modifyAt (f := fun _ =>
    { node with subkeys := cmpLinkSubkeySorted node.subkeys child }) hget
  have hchild := congrArg (Key.get? · q) h
  simp only [Key.modifyAt_append, Key.get?_modifyAt hnew, hget, some.injEq] at hchild
  have hlength := congrArg (fun k => k.subkeys.length) hchild
  simp only [subkeys_length_modifyAt_child, cmpLinkSubkeySorted,
    orderedInsert_length] at hlength
  omega

theorem modifyAt_eq_self_iff {n : Key} (hget : top.get? p = some n) :
    top.modifyAt f p = top ↔ f n = n := by
  refine ⟨fun h => ?_, fun h => ?_⟩
  · have hn := Key.get?_modifyAt (f := f) hget
    rw [h, hget] at hn
    exact (some.inj hn).symm
  · rw [← Key.modifyAt_const_get? hget, h, Key.modifyAt_self hget]

theorem refused_eq_iff (h : cmpApplyRecord now depth top record = (top', false)) :
    top' = top ↔ LeavesNothing now depth top record := by
  unfold cmpApplyRecord at h
  simp only at h
  split at h
  case isTrue hop =>
    have hset : record.op ≠ cmpOpSetValues := by rw [hop]; decide
    split at h
    case h_1 hnone =>
      cases h
      refine iff_of_true rfl ⟨fun _ hsome => ?_, fun hop' => absurd hop' hset⟩
      rw [hnone] at hsome
      cases hsome
    case h_2 top1 p hsome =>
      rw [← (Prod.mk.inj h).1]
      rcases cmpResolveRecordKey_cases hsome with ⟨rfl, hget, hall⟩ |
          ⟨-, hnone, q, i, node, child, rfl, hget, rfl⟩
      · obtain ⟨node, hget⟩ := isSome_iff_exists.mp hget
        rw [modifyAt_eq_self_iff hget]
        refine ⟨fun heq => ⟨fun _ _ => ⟨p, node, hall false, hget, ?_, ?_⟩,
          fun hop' => absurd hop' hset⟩, fun hleaves => ?_⟩
        · exact (congrArg Key.lastWriteTime heq).symm
        · exact (congrArg Key.isLink heq).symm
        · obtain ⟨p', node', hp', hget', hstamp, hlink⟩ := hleaves.create hop (by rw [hsome]; rfl)
          rw [hall false] at hp'
          cases hp'
          rw [hget] at hget'
          cases hget'
          rw [← hstamp, ← hlink, Key.eta]
      · refine iff_of_false (create_ne hget) ?_
        intro hleaves
        obtain ⟨p', -, hp', -⟩ := hleaves.create hop (by rw [hsome]; rfl)
        rw [hnone] at hp'
        cases hp'
  case isFalse hcreate =>
    -- the other operations look before they write, except for the values
    have hother : record.op ≠ cmpOpSetValues → LeavesNothing now depth top record := fun hset =>
      ⟨fun hop => absurd hop hcreate, fun hop => absurd hop hset⟩
    split at h
    case h_1 hnone =>
      cases h
      refine iff_of_true rfl ⟨fun hop => absurd hop hcreate, ?_⟩
      intro _ top1 p node hsome
      rw [hnone] at hsome
      cases hsome
    case h_2 top1 p hsome =>
      obtain ⟨hgetp, hall⟩ : (top.get? p).isSome ∧
          ∀ c, cmpResolveRecordKey now depth top record.path c = some (top, p) := by
        rcases cmpResolveRecordKey_cases hsome with h | h
        · exact h.2
        · exact absurd h.1 (by decide)
      split at h
      case h_1 hnone => rw [hnone] at hgetp; cases hgetp
      case h_2 node hget =>
        split at h
        case isTrue hop =>
          rw [← (Prod.mk.inj h).1]
          rw [modifyAt_eq_self_iff hget, cmpApplyValues_eq]
          refine ⟨fun heq => ⟨fun hop' => absurd hop' hcreate, ?_⟩, fun hleaves => ?_⟩
          · intro _ top2 p' node' hp' hget'
            rw [hall false] at hp'
            cases hp'
            rw [hget] at hget'
            cases hget'
            exact ⟨(congrArg Key.lastWriteTime heq).symm, congrArg Key.values heq⟩
          · obtain ⟨hstamp, hvalues⟩ := hleaves.set hop top1 p node hsome hget
            simp only [hvalues, ← hstamp]
            rw [Key.eta]
        case isFalse hset =>
          refine iff_of_true ?_ (hother hset)
          repeat' split at h
          all_goals first | (cases h; rfl) | cases h

theorem replayFramed_eq_iff (bs : List (List UInt8)) :
    replayFramed now depth top bs = foldFramed now depth top bs ↔ Clean now depth top bs := by
  induction bs generalizing top with
  | nil => exact iff_of_true rfl trivial
  | cons b bs ih =>
    rw [replayFramed, foldFramed, Clean]
    cases cmpReadRecord b with
    | none => exact iff_of_true rfl trivial
    | some r =>
      simp only
      cases happly : cmpApplyRecord now depth top r.1 with
      | mk top' accepted =>
        cases accepted with
        | true => exact ih
        | false => exact refused_eq_iff happly

/-! ## Logs that were cut -/

/-- The 16 bytes that `CmpReplayImage` accepts in front of the records. -/
structure ValidHeader (header : List UInt8) : Prop where
  size : header.length = 16
  magic : field header 0 4 = 0x32564850
  version : field header 4 4 = 2

def wholeBefore : List (List UInt8) → Nat → List (List UInt8)
  | [], _ => []
  | b :: bs, n => if b.length ≤ n then b :: wholeBefore bs (n - b.length) else []

theorem mem_of_mem_wholeBefore (h : b ∈ wholeBefore bs n) : b ∈ bs := by
  induction bs generalizing n with
  | nil => cases h
  | cons a bs ih =>
    rw [wholeBefore] at h
    split at h
    · rcases mem_cons.mp h with rfl | h
      · exact mem_cons_self
      · exact .tail _ (ih h)
    · cases h

/-- What a cut leaves: the whole records, and a part of one or nothing. -/
theorem flatten_take (hbs : ∀ b ∈ bs, Framed b) (n : Nat) :
    ∃ rest, bs.flatten.take n = (wholeBefore bs n).flatten ++ rest ∧
      (rest = [] ∨ ∃ b k, Framed b ∧ k < b.length ∧ rest = b.take k) := by
  induction bs generalizing n with
  | nil => exact ⟨[], by simp [wholeBefore], .inl rfl⟩
  | cons b bs ih =>
    rw [wholeBefore, flatten_cons, take_append]
    by_cases hlen : b.length ≤ n
    · obtain ⟨rest, hrest, hcut⟩ := ih (fun b hb => hbs b (.tail _ hb)) (n - b.length)
      refine ⟨rest, ?_, hcut⟩
      rw [if_pos hlen, take_of_length_le hlen, hrest, flatten_cons, append_assoc]
    · refine ⟨b.take n, ?_, .inr ⟨b, n, hbs b mem_cons_self, by omega, rfl⟩⟩
      rw [if_neg hlen, Nat.sub_eq_zero_of_le (by omega), take_zero, append_nil]
      rfl

theorem length_le_flatten (hbs : ∀ b ∈ bs, Framed b) :
    bs.length ≤ bs.flatten.length := by
  induction bs with
  | nil => exact Nat.le_refl _
  | cons b bs ih =>
    have hsize := (hbs b mem_cons_self).size
    have := ih fun b hb => hbs b (.tail _ hb)
    rw [flatten_cons, length_append, length_cons]
    omega

def tornLog (header : List UInt8) (bs : List (List UInt8)) (cut zeros : Nat) : List UInt8 :=
  (header ++ bs.flatten).take cut ++ List.replicate zeros 0

theorem cmpReplayImage_torn {header : List UInt8} {cut zeros : Nat}
    (hheader : ValidHeader header) (hbs : ∀ b ∈ bs, Framed b) (hcut : 16 ≤ cut)
    (hzeros : zeros ≠ 0 →
      bs.flatten.take (cut - 16) = (wholeBefore bs (cut - 16)).flatten)
    (hsize : (tornLog header bs cut zeros).length ≤ cmpHiveMaxBytes)
    (hdepth : 0 < depth ∧ depth ≤ cmpHiveMaxDepth) :
    cmpReplayImage now depth top (tornLog header bs cut zeros) true =
      (statusSuccess, replayFramed now depth top (wholeBefore bs (cut - 16))) := by
  have hlog : tornLog header bs cut zeros =
      header ++ (bs.flatten.take (cut - 16) ++ List.replicate zeros 0) := by
    have hfits : header.length ≤ cut := by
      rw [hheader.size]
      exact hcut
    rw [tornLog, take_append, hheader.size, take_of_length_le hfits, append_assoc]
  have hlength : (tornLog header bs cut zeros).length =
      16 + (bs.flatten.take (cut - 16) ++ List.replicate zeros 0).length := by
    rw [hlog, length_append, hheader.size]
  have hmagic : field (tornLog header bs cut zeros) 0 4 = 0x32564850 := by
    rw [hlog, field_append_left _ (by rw [hheader.size]; omega), hheader.magic]
  have hversion : field (tornLog header bs cut zeros) 4 4 = 2 := by
    rw [hlog, field_append_left _ (by rw [hheader.size]; omega), hheader.version]
  have hdrop : (tornLog header bs cut zeros).drop 16 =
      bs.flatten.take (cut - 16) ++ List.replicate zeros 0 := by
    rw [hlog, drop_left' hheader.size]
  unfold cmpReplayImage
  rw [if_neg (by rw [hmagic, hversion]; omega), if_neg (by omega)]
  simp only [not_true_eq_false, and_false, if_false, hdrop]
  refine congrArg (statusSuccess, ·) ?_
  obtain ⟨rest, hrest, hpart⟩ := flatten_take hbs (cut - 16)
  have hwhole : ∀ b ∈ wholeBefore bs (cut - 16), Framed b := fun b hb =>
    hbs b (mem_of_mem_wholeBefore hb)
  have hend : cmpReadRecord (rest ++ List.replicate zeros 0) = none := by
    rcases Nat.eq_zero_or_pos zeros with rfl | hpos
    · rw [replicate_zero, append_nil]
      rcases hpart with rfl | ⟨b, k, hb, hk, rfl⟩
      · rfl
      · exact hb.read_take hk
    · have hnil : rest = [] := by
        rw [hzeros (by omega)] at hrest
        exact (append_cancel_left_eq _ _ _ |>.mp ((append_nil _).trans hrest)).symm
      rw [hnil, nil_append]
      exact cmpReadRecord_zeros zeros
  rw [hrest, append_assoc]
  refine cmpReplayRecords_framed hwhole hend ?_
  have := length_le_flatten hwhole
  rw [hlength, hrest, length_append, length_append]
  omega

/-- The replay of a log that was cut is the fold of the records in front of the cut, exactly when
the first of them that is refused leaves nothing behind. -/
theorem torn_append_iff {header : List UInt8} {bs : List (List UInt8)} {cut zeros : Nat}
    (now : UInt64) (top : Key) (hheader : ValidHeader header) (hbs : ∀ b ∈ bs, Framed b)
    (hcut : 16 ≤ cut)
    (hzeros : zeros ≠ 0 →
      bs.flatten.take (cut - 16) = (wholeBefore bs (cut - 16)).flatten)
    (hsize : (tornLog header bs cut zeros).length ≤ cmpHiveMaxBytes)
    (hdepth : 0 < depth ∧ depth ≤ cmpHiveMaxDepth) :
    cmpReplayImage now depth top (tornLog header bs cut zeros) true =
        (statusSuccess, foldFramed now depth top (wholeBefore bs (cut - 16))) ↔
      Clean now depth top (wholeBefore bs (cut - 16)) := by
  rw [cmpReplayImage_torn hheader hbs hcut hzeros hsize hdepth, ← replayFramed_eq_iff]
  simp

instance (b : List UInt8) : Decidable (Framed b) :=
  decidable_of_iff (24 ≤ b.length ∧ b.length % 8 = 0 ∧ field b 0 4 = b.length ∧
      (kiCrc32 (b.drop 8)).toNat = field b 4 4)
    ⟨fun h => ⟨h.1, h.2.1, h.2.2.1, h.2.2.2⟩, fun h => ⟨h.1, h.2, h.3, h.4⟩⟩

/-- A CREATE_KEY of a key `A`. -/
def createA (keyFlags : UInt8) : List UInt8 := encodeRecord cmpOpCreateKey keyFlags [0x41] 7 0 []

theorem hiveHeader_valid : ValidHeader hiveHeader := ⟨rfl, by decide, by decide⟩

/-- A log of two records, cut in the second. -/
theorem torn_append_iff_cut :
    cmpReplayImage 0 1 (newNode 0 []) (tornLog hiveHeader [createA 0, createA 0] 60 0) true =
      (statusSuccess, foldFramed 0 1 (newNode 0 []) (wholeBefore [createA 0, createA 0] 44)) := by
  have hframed : Framed (createA 0) := by decide +kernel
  refine (torn_append_iff 0 (newNode 0 []) hiveHeader_valid (by simp [hframed]) (by decide)
    (fun h => absurd rfl h) (by decide +kernel) (by decide)).mpr ?_
  have hwhole : wholeBefore [createA 0, createA 0] (60 - 16) = [createA 0] := by decide +kernel
  have hread : (cmpReadRecord (createA 0)).map (·.1) = some
      { op := cmpOpCreateKey, keyFlags := 0, valueCount := 0, lastWriteTime := 7, path := [0x41],
        tail := [] } := by decide +kernel
  rw [hwhole, Clean]
  generalize cmpReadRecord (createA 0) = read at hread ⊢
  cases read with
  | none => cases hread
  | some r =>
    have hr : r.1 = { op := cmpOpCreateKey, keyFlags := 0, valueCount := 0, lastWriteTime := 7,
                      path := [0x41], tail := [] } := some.inj hread
    have hok : (cmpApplyRecord 0 1 (newNode 0 []) r.1).2 = true := by
      rw [hr]
      decide +kernel
    cases happly : cmpApplyRecord 0 1 (newNode 0 []) r.1 with
    | mk top' accepted =>
      rw [happly] at hok
      cases hok
      simp only [happly]
      trivial

/-- A CREATE_KEY with a reserved key flag is refused, and its key stays. -/
theorem refused_create_left :
    Framed (createA 2) ∧
    cmpReplayImage 0 1 (newNode 0 []) (tornLog hiveHeader [createA 2] 48 0) true ≠
      (statusSuccess, foldFramed 0 1 (newNode 0 []) (wholeBefore [createA 2] 32)) := by
  refine ⟨by decide +kernel, fun h => ?_⟩
  have hkept : (cmpReplayImage 0 1 (newNode 0 [])
      (tornLog hiveHeader [createA 2] 48 0) true).2.subkeys.length = 1 := by decide +kernel
  have hfold : (foldFramed 0 1 (newNode 0 [])
      (wholeBefore [createA 2] 32)).subkeys.length = 0 := by decide +kernel
  rw [h, hfold] at hkept
  cases hkept

end Proskrnl.Cm
