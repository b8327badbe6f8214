import Proskrnl.Cm.Replay

/-!
# Snapshots

`CmpSerializeSubtree` and its walk: the CREATE_KEY record of each key that is kept, its values in
chunks, then its subkeys in order, volatile ones left out. `cmpParseSubtreeInto_cmpSerializeSubtree`
is the round trip into an empty key.
-/

namespace Proskrnl.Cm
open Bytes ListUpdate List

/-! ## The serializer -/

def cmpValuesPerRecord : Nat := 1024

/-- The value loop of `CmpWriteKeySnapshot`: one SET_VALUES record for each chunk. Each round takes
at least one value, so the number of values bounds the rounds. -/
def cmpWriteValueChunks (path : WStr) (stamp : UInt64) : Nat → List Value → Writer → Writer
  | 0, _, w => w
  | _ + 1, [], w => w
  | rounds + 1, v :: values, w =>
    let chunk := (v :: values).take cmpValuesPerRecord
    cmpWriteValueChunks path stamp rounds ((v :: values).drop cmpValuesPerRecord)
      (w.writeRecord cmpOpSetValues 0 path stamp chunk.length fun w =>
        chunk.foldl Writer.cmpWriteValue w)

/-- The key flags of a CREATE_KEY record. -/
def linkFlag (link : Bool) : UInt8 := if link then 1 else 0

/-- `CmpWriteKeySnapshot` of the key that `names` lead to from the top. -/
def cmpWriteKeySnapshot (names : List WStr) (node : Key) (w : Writer) : Writer :=
  let path := cmpBuildPath names
  cmpWriteValueChunks path node.lastWriteTime node.values.length node.values
    (w.writeRecord cmpOpCreateKey (linkFlag node.isLink) path node.lastWriteTime 0 id)

mutual

def cmpWriteSubtree (names : List WStr) : Key → Writer → Writer
  | ⟨name, values, time, bodies, volatileFlag, link, subkeys⟩, w =>
    cmpWriteSubkeys names subkeys (cmpWriteKeySnapshot names
      ⟨name, values, time, bodies, volatileFlag, link, subkeys⟩ w)

def cmpWriteSubkeys (names : List WStr) : List Key → Writer → Writer
  | [], w => w
  | child :: rest, w =>
    cmpWriteSubkeys names rest
      (if child.isVolatile then w else cmpWriteSubtree (names ++ [child.name]) child w)

end

/-- Measure, refuse what is over the cap or does not get its pool block, then
emit. -/
def cmpSerializeSubtree (pool : Bool) (top : Key) : Except NtStatus (List UInt8) :=
  let measure := cmpWriteSubtree [] top { buffer := none, offset := 16 }
  if measure.offset > cmpHiveMaxBytes then .error statusInsufficientResources
  else if !pool then .error statusInsufficientResources
  else
    let emit := cmpWriteSubtree [] top { buffer := some hiveHeader, offset := 16 }
    .ok (emit.buffer.getD [])

mutual

/-- The part of a key that a snapshot keeps: volatile subkeys are dropped with all below them, and
nothing is open. `stamp` is applied to the last-write times. -/
def Key.project (stamp : UInt64 → UInt64) : Key → Key
  | ⟨name, values, time, _, _, link, subkeys⟩ =>
    ⟨name, values, stamp time, 0, false, link, projectSubkeys stamp subkeys⟩

def projectSubkeys (stamp : UInt64 → UInt64) : List Key → List Key
  | [] => []
  | child :: rest =>
    if child.isVolatile then projectSubkeys stamp rest
    else child.project stamp :: projectSubkeys stamp rest

end

def keep (stamp : UInt64 → UInt64) (child : Key) : Option Key :=
  if child.isVolatile then none else some (child.project stamp)

theorem projectSubkeys_eq (stamp : UInt64 → UInt64) (subkeys : List Key) :
    projectSubkeys stamp subkeys = subkeys.filterMap (keep stamp) := by
  induction subkeys with
  | nil => rfl
  | cons child rest ih => cases h : child.isVolatile <;> simp [projectSubkeys, keep, h, ih]

theorem Key.project_eq (stamp : UInt64 → UInt64) (k : Key) :
    k.project stamp = { k with
      lastWriteTime := stamp k.lastWriteTime, bodyCount := 0, isVolatile := false,
      subkeys := k.subkeys.filterMap (keep stamp) } := by
  cases k; simp [Key.project, projectSubkeys_eq]

/-- Well formed with at most `n` levels: names are valid, siblings and values are in strict order,
and so it is in each subkey that a snapshot keeps. -/
inductive Key.Ok : Nat → Key → Prop
  | mk {n : Nat} {k : Key} : k.values.Pairwise ValueBefore →
    (∀ v ∈ k.values, v.name.length ≤ 16383) → k.subkeys.Pairwise KeyBefore →
    (∀ c ∈ k.subkeys, ValidName c.name) →
    (∀ c ∈ k.subkeys, c.isVolatile = false → Key.Ok n c) → Key.Ok (n + 1) k

def Key.checkOk : Nat → Key → Bool
  | 0, _ => false
  | n + 1, k =>
    decide (k.values.Pairwise ValueBefore) && decide (∀ v ∈ k.values, v.name.length ≤ 16383) &&
      decide (k.subkeys.Pairwise KeyBefore) && decide (∀ c ∈ k.subkeys, ValidName c.name) &&
      k.subkeys.all fun c => c.isVolatile || Key.checkOk n c

variable {n depth rounds : Nat} {k top top' node : Key} {now stamp : UInt64} {w : Writer}
  {subkeys : List Key} {values : List Value} {names : List WStr}

theorem Key.checkOk_iff : k.checkOk n = true ↔ k.Ok n := by
  induction n generalizing k with
  | zero =>
    constructor
    · intro h; cases h
    · intro h; cases h
  | succ n ih =>
    simp only [Key.checkOk, Bool.and_eq_true, decide_eq_true_eq, List.all_eq_true,
      Bool.or_eq_true]
    constructor
    · rintro ⟨⟨⟨⟨h1, h2⟩, h3⟩, h4⟩, h5⟩
      exact .mk h1 h2 h3 h4 fun c hc hvol => ih.mp ((h5 c hc).resolve_left (by simp [hvol]))
    · rintro ⟨h1, h2, h3, h4, h5⟩
      refine ⟨⟨⟨⟨h1, h2⟩, h3⟩, h4⟩, fun c hc => ?_⟩
      cases hvol : c.isVolatile with
      | true => exact .inl rfl
      | false => exact .inr (ih.mpr (h5 c hc hvol))

instance (n : Nat) (k : Key) : Decidable (k.Ok n) := decidable_of_iff _ Key.checkOk_iff

/-! ## Records as entries -/

/-- One record of a log, its key given by the components of its path. -/
structure Entry where
  op : UInt8
  keyFlags : UInt8
  names : List WStr
  stamp : UInt64
  valueCount : Nat
  tail : List UInt8

namespace Entry

def encode (e : Entry) : List UInt8 :=
  encodeRecord e.op e.keyFlags (cmpBuildPath e.names) e.stamp e.valueCount e.tail

def record (e : Entry) : Record where
  op := e.op
  keyFlags := e.keyFlags
  valueCount := e.valueCount
  lastWriteTime := e.stamp
  path := cmpBuildPath e.names
  tail := pad8 e.tail

structure Fits (e : Entry) : Prop where
  path_lt : (cmpBuildPath e.names).length < 32768
  count_lt : e.valueCount < 65536
  length_lt : e.encode.length < 2 ^ 32

theorem cmpReadRecord_encode (e : Entry) (he : e.Fits) (rest : List UInt8) :
    cmpReadRecord (e.encode ++ rest) = some (e.record, rest) :=
  cmpReadRecord_encodeRecord rest he.path_lt he.count_lt he.length_lt

end Entry

def applyEntries (now : UInt64) (depth : Nat) : List Entry → Key → Option Key
  | [], top => some top
  | e :: es, top =>
    match cmpApplyRecord now depth top e.record with
    | (top, true) => applyEntries now depth es top
    | (_, false) => none

theorem applyEntries_append (now : UInt64) (depth : Nat) (a b : List Entry) (top : Key) :
    applyEntries now depth (a ++ b) top =
      (applyEntries now depth a top).bind (applyEntries now depth b) := by
  induction a generalizing top with
  | nil => rfl
  | cons e a ih =>
    simp only [cons_append, applyEntries]
    rcases cmpApplyRecord now depth top e.record with ⟨top', _ | _⟩
    · rfl
    · exact ih top'

variable {es : List Entry}

theorem cmpReplayRecords_entries
    (hfit : ∀ e ∈ es, e.Fits) (h : applyEntries now depth es top = some top') (rounds : Nat)
    (rest : List UInt8) (applied : Nat) :
    cmpReplayRecords now depth (es.length + rounds) top (es.flatMap Entry.encode ++ rest)
        applied =
      cmpReplayRecords now depth rounds top' rest (applied + es.length) := by
  induction es generalizing top applied with
  | nil => cases h; simp
  | cons e es ih =>
    have he := hfit e mem_cons_self
    have hread := e.cmpReadRecord_encode he (es.flatMap Entry.encode ++ rest)
    rw [applyEntries] at h
    rw [flatMap_cons, append_assoc, length_cons, Nat.add_right_comm,
      cmpReplayRecords, hread]
    rcases hap : cmpApplyRecord now depth top e.record with ⟨top1, _ | _⟩
    · rw [hap] at h; cases h
    · rw [hap] at h
      simp only [hap]
      rw [ih (fun x hx => hfit x (.tail _ hx)) h]
      congr 1; omega

theorem Entry.length_encode_pos (e : Entry) : 24 ≤ e.encode.length := by
  rw [Entry.encode, length_encodeRecord]; omega

theorem length_le_flatMap_encode (es : List Entry) :
    es.length ≤ (es.flatMap Entry.encode).length := by
  induction es with
  | nil => exact Nat.le_refl _
  | cons e es ih =>
    have := e.length_encode_pos
    rw [flatMap_cons, length_append, length_cons]
    omega

theorem cmpReplayRecords_all
    (hfit : ∀ e ∈ es, e.Fits) (h : applyEntries now depth es top = some top')
    (hrounds : (es.flatMap Entry.encode).length ≤ rounds) :
    cmpReplayRecords now depth rounds top (es.flatMap Entry.encode) 0 = (top', [], es.length) := by
  obtain ⟨r, rfl⟩ := Nat.exists_eq_add_of_le ((length_le_flatMap_encode es).trans hrounds)
  have hall := cmpReplayRecords_entries hfit h r [] 0
  rw [append_nil, Nat.zero_add] at hall
  rw [hall]
  cases r <;> rfl

theorem cmpReplayImage_entries
    (hfit : ∀ e ∈ es, e.Fits) (h : applyEntries now depth es top = some top') (hpos : 0 < depth)
    (hdepth : depth ≤ cmpHiveMaxDepth) (hne : es ≠ [])
    (hcap : (hiveHeader ++ es.flatMap Entry.encode).length ≤ cmpHiveMaxBytes)
    (keepPrefix : Bool) :
    cmpReplayImage now depth top (hiveHeader ++ es.flatMap Entry.encode) keepPrefix =
      (statusSuccess, top') := by
  have hheader : hiveHeader.length = 16 := rfl
  have hf0 : ∀ b, field (hiveHeader ++ b) 0 4 = 0x32564850 := fun b => by
    simp [hiveHeader, field_le]
  have hf4 : ∀ b, field (hiveHeader ++ b) 4 4 = 2 := fun b => by
    simp [hiveHeader, field_append, field_le]
  have hdrop : (hiveHeader ++ es.flatMap Entry.encode).drop 16 = es.flatMap Entry.encode :=
    drop_left' hheader
  have hlen : es.length ≠ 0 := fun h => hne (eq_nil_of_length_eq_zero h)
  rw [cmpReplayImage, hdrop, cmpReplayRecords_all hfit h (by simp), hf0, hf4]
  rw [if_neg (by rw [length_append, hheader] at hcap ⊢; omega), if_neg (by omega)]
  simp [hlen]

/-! ## The records of a snapshot -/

def setEntry (names : List WStr) (stamp : UInt64) (values : List Value) : Entry where
  op := cmpOpSetValues
  keyFlags := 0
  names := names
  stamp := stamp
  valueCount := values.length
  tail := values.flatMap encodeValue

/-- The SET_VALUES entries of a key, chunk by chunk. -/
def valueEntries (names : List WStr) (stamp : UInt64) : Nat → List Value → List Entry
  | 0, _ => []
  | _ + 1, [] => []
  | rounds + 1, v :: values =>
    setEntry names stamp ((v :: values).take cmpValuesPerRecord) ::
      valueEntries names stamp rounds ((v :: values).drop cmpValuesPerRecord)

def createEntry (names : List WStr) (node : Key) : Entry where
  op := cmpOpCreateKey
  keyFlags := linkFlag node.isLink
  names := names
  stamp := node.lastWriteTime
  valueCount := 0
  tail := []

mutual

/-- What a snapshot holds of a key after its CREATE_KEY. -/
def contentEntries (names : List WStr) : Key → List Entry
  | ⟨_, values, time, _, _, _, subkeys⟩ =>
    valueEntries names time values.length values ++ subkeyEntries names subkeys

def subkeyEntries (names : List WStr) : List Key → List Entry
  | [] => []
  | child :: rest =>
    (if child.isVolatile then []
      else createEntry (names ++ [child.name]) child ::
        contentEntries (names ++ [child.name]) child) ++ subkeyEntries names rest

end

theorem contentEntries_eq (names : List WStr) (k : Key) :
    contentEntries names k = valueEntries names k.lastWriteTime k.values.length k.values ++
      subkeyEntries names k.subkeys := by
  cases k; rfl

theorem Writer.Aligned.encodeRecord (hw : w.Aligned) (e : Entry) :
    (w.cmpWriteBytes e.encode).Aligned := by
  refine hw.cmpWriteBytes ?_
  have h1 := roundUp8_mod (2 * (cmpBuildPath e.names).length)
  have h2 := roundUp8_mod e.tail.length
  rw [Entry.encode, length_encodeRecord]
  omega

theorem Writer.Aligned.encodeRecords (hw : w.Aligned) (es : List Entry) :
    (w.cmpWriteBytes (es.flatMap Entry.encode)).Aligned := by
  induction es generalizing w with
  | nil => rw [flatMap_nil, cmpWriteBytes_nil]; exact hw
  | cons e es ih =>
    rw [flatMap_cons, ← cmpWriteBytes_cmpWriteBytes]
    exact ih (hw.encodeRecord e)

theorem cmpWriteValues_writes (values : List Value) :
    Writer.Writes (fun w => values.foldl Writer.cmpWriteValue w) (values.flatMap encodeValue) := by
  induction values with
  | nil => intro w _; rw [flatMap_nil, Writer.cmpWriteBytes_nil]; rfl
  | cons v values ih =>
    intro w hw
    have hv := Writer.cmpWriteValue_writes v w hw
    have halign : (w.cmpWriteBytes (encodeValue v)).Aligned :=
      hw.cmpWriteBytes (by rw [length_encodeValue]; exact roundUp8_mod _)
    have hvs : values.foldl Writer.cmpWriteValue (w.cmpWriteBytes (encodeValue v)) = _ :=
      ih _ halign
    rw [Writer.cmpWriteBytes_cmpWriteBytes, ← flatMap_cons] at hvs
    exact (congrArg (values.foldl Writer.cmpWriteValue) hv).trans hvs

theorem cmpWriteValueChunks_eq (names : List WStr) (stamp : UInt64) (rounds : Nat)
    (values : List Value) (hw : w.Aligned) :
    cmpWriteValueChunks (cmpBuildPath names) stamp rounds values w =
      w.cmpWriteBytes ((valueEntries names stamp rounds values).flatMap Entry.encode) := by
  induction rounds generalizing values w with
  | zero => rw [valueEntries, flatMap_nil, Writer.cmpWriteBytes_nil]; rfl
  | succ rounds ih =>
    cases values with
    | nil => rw [valueEntries, flatMap_nil, Writer.cmpWriteBytes_nil]; rfl
    | cons v values =>
      rw [cmpWriteValueChunks, valueEntries, flatMap_cons,
        ← Writer.cmpWriteBytes_cmpWriteBytes]
      simp only [Writer.writeRecord_eq hw (cmpWriteValues_writes _)]
      exact ih _ (hw.encodeRecord ⟨_, _, names, _, _, _⟩)

theorem cmpWriteKeySnapshot_eq (names : List WStr) (node : Key) (hw : w.Aligned) :
    cmpWriteKeySnapshot names node w =
      w.cmpWriteBytes ((createEntry names node :: valueEntries names node.lastWriteTime
        node.values.length node.values).flatMap Entry.encode) := by
  have hid : Writer.Writes id [] := fun w _ => (Writer.cmpWriteBytes_nil w).symm
  have hcreate := hw.encodeRecord (createEntry names node)
  rw [cmpWriteKeySnapshot, Writer.writeRecord_eq hw hid, flatMap_cons,
    ← Writer.cmpWriteBytes_cmpWriteBytes]
  exact cmpWriteValueChunks_eq _ _ _ _ hcreate

theorem cmpWriteSubkeys_eq {subkeys : List Key}
    (ih : ∀ c ∈ subkeys, ∀ names (w : Writer), w.Aligned → cmpWriteSubtree names c w =
      w.cmpWriteBytes ((createEntry names c :: contentEntries names c).flatMap Entry.encode))
    (names : List WStr) {w : Writer} (hw : w.Aligned) :
    cmpWriteSubkeys names subkeys w =
      w.cmpWriteBytes ((subkeyEntries names subkeys).flatMap Entry.encode) := by
  induction subkeys generalizing w with
  | nil => rw [subkeyEntries, flatMap_nil, Writer.cmpWriteBytes_nil]; rfl
  | cons c rest ihl =>
    have ihl := @ihl fun d hd => ih d (.tail _ hd)
    rw [cmpWriteSubkeys, subkeyEntries, flatMap_append]
    cases hc : c.isVolatile with
    | true => simpa [hc] using ihl hw
    | false =>
      rw [if_neg (by simp), if_neg (by simp), ih c mem_cons_self _ _ hw,
        ihl (hw.encodeRecords _), Writer.cmpWriteBytes_cmpWriteBytes]

/-- The walk emits the snapshot's records, in the measuring pass and in the emitting one. -/
theorem cmpWriteSubtree_eq (k : Key) : ∀ (names : List WStr) (w : Writer), w.Aligned →
    cmpWriteSubtree names k w =
      w.cmpWriteBytes ((createEntry names k :: contentEntries names k).flatMap Entry.encode) := by
  induction k using Key.induct with
  | h k ih =>
    intro names w hw
    have hkey : cmpWriteSubtree names k w =
        cmpWriteSubkeys names k.subkeys (cmpWriteKeySnapshot names k w) := by cases k; rfl
    rw [hkey, cmpWriteKeySnapshot_eq names k hw, cmpWriteSubkeys_eq ih names (hw.encodeRecords _),
      Writer.cmpWriteBytes_cmpWriteBytes, ← flatMap_append, contentEntries_eq,
      cons_append]

def snapshotEntries (top : Key) : List Entry := createEntry [] top :: contentEntries [] top

def snapshot (top : Key) : List UInt8 :=
  hiveHeader ++ (snapshotEntries top).flatMap Entry.encode

/-- A serialization is the header and the snapshot's records: the two passes agree. -/
theorem cmpSerializeSubtree_eq (pool : Bool) (top : Key) :
    cmpSerializeSubtree pool top =
      if (snapshot top).length > cmpHiveMaxBytes ∨ pool = false then
        .error statusInsufficientResources
      else .ok (snapshot top) := by
  have hheader : hiveHeader.length = 16 := rfl
  have hm : Writer.Aligned { buffer := none, offset := 16 } := ⟨by simp, rfl⟩
  have he : Writer.Aligned { buffer := some hiveHeader, offset := 16 } := ⟨by simp [hheader], rfl⟩
  rw [cmpSerializeSubtree, cmpWriteSubtree_eq top [] _ hm, cmpWriteSubtree_eq top [] _ he, snapshot,
    length_append, hheader]
  change (if 16 + ((snapshotEntries top).flatMap Entry.encode).length > cmpHiveMaxBytes then _
    else _) = _
  by_cases hcap : 16 + ((snapshotEntries top).flatMap Entry.encode).length > cmpHiveMaxBytes
  · rw [if_pos hcap, if_pos (.inl hcap)]
  · rw [if_neg hcap]
    cases pool with
    | false => simp
    | true => rw [if_neg (by simp), if_neg (by simp only [hcap]; simp)]; rfl

theorem cmpSerializeSubtree_ok {pool : Bool} {bytes : List UInt8}
    (h : cmpSerializeSubtree pool top = .ok bytes) :
    bytes = snapshot top ∧ (snapshot top).length ≤ cmpHiveMaxBytes := by
  rw [cmpSerializeSubtree_eq] at h
  split at h
  · cases h
  · rename_i hcap
    cases h
    exact ⟨rfl, by omega⟩

/-! ## Applying the records of a snapshot -/

theorem setValueIn_append {v : Value} (h : ∀ u ∈ values, ValueBefore u v) :
    setValueIn values v.name v.type v.data = values ++ [v] := by
  have hfind : values.findIdx? (fun u => rtlEqualUnicodeString u.name v.name) = none :=
    findIdx?_eq_none_iff.mpr fun u hu => Before.not_equal (h u hu)
  rw [setValueIn, hfind]
  exact orderedInsert_append fun u hu hvu => Before.asymm (h u hu) hvu

theorem foldl_cmpSetValue (h : (node.values ++ values).Pairwise ValueBefore) :
    values.foldl (fun node v => cmpSetValue node v.name v.type v.data) node =
      { node with values := node.values ++ values } := by
  induction values generalizing node with
  | nil => simp
  | cons v values ih =>
    have hv : ∀ u ∈ node.values, ValueBefore u v := fun u hu =>
      (pairwise_append.mp h).2.2 u hu v mem_cons_self
    have hset : cmpSetValue node v.name v.type v.data =
        { node with values := node.values ++ [v] } := by
      rw [cmpSetValue, setValueIn_append hv]
    rw [foldl_cons, hset, ih (by simpa using h)]
    simp

def appendValues (stamp : UInt64) (values : List Value) (node : Key) : Option Key :=
  if node.lastWriteTime = stamp ∧ (node.values ++ values).Pairwise ValueBefore then
    some { node with values := node.values ++ values }
  else none

theorem Value.fits_of_mem {e : Entry} (he : e.Fits)
    (htail : e.tail = values.flatMap encodeValue) {v : Value} (hv : v ∈ values)
    (hname : v.name.length ≤ 16383) : v.Fits := by
  have hlen := he.length_lt
  rw [Entry.encode, length_encodeRecord, htail] at hlen
  have h1 := le_roundUp8 (values.flatMap encodeValue).length
  have h2 : (encodeValue v).length ≤ (values.flatMap encodeValue).length := by
    obtain ⟨a, b, rfl⟩ := append_of_mem hv
    simp only [flatMap_append, flatMap_cons, length_append]
    omega
  have h3 := le_roundUp8 (12 + 2 * v.name.length + v.data.length)
  rw [length_encodeValue] at h2
  exact ⟨by omega, by omega⟩

def setValues (stamp : UInt64) (values : List Value) (node : Key) : Key :=
  values.foldl (fun node v => cmpSetValue node v.name v.type v.data)
    { node with lastWriteTime := stamp }

theorem setValues_of_appendValues {k' : Key}
    (h : appendValues stamp values k = some k') : some (setValues stamp values k) = some k' := by
  rw [appendValues] at h
  split at h
  · rename_i hs
    obtain ⟨rfl, hs⟩ := hs
    rw [setValues, foldl_cmpSetValue (by exact hs), ← h]
  · cases h

theorem cmpApplyRecord_setEntry (hnames : ∀ n ∈ names, ValidName n) (hvalues : ∀ v ∈ values, v.Fits)
    (h : top.updatePath names (fun n => some (setValues stamp values n)) = some top')
    (now : UInt64) (depth : Nat) :
    cmpApplyRecord now depth top (setEntry names stamp values).record = (top', true) :=
  cmpApplyRecord_setValues hnames rfl rfl (fun _ => cmpApplyValues_flatMap hvalues _ _) h now depth

theorem applyEntries_values (hnames : ∀ n ∈ names, ValidName n)
    (hrounds : values.length ≤ rounds) (hvalues : ∀ v ∈ values, v.name.length ≤ 16383)
    (hfit : ∀ e ∈ valueEntries names stamp rounds values, e.Fits)
    (h : top.updatePath names (appendValues stamp values) = some top') :
    applyEntries now depth (valueEntries names stamp rounds values) top = some top' := by
  have hnil : ∀ top : Key, top.updatePath names (appendValues stamp []) = some top' →
      top' = top := by
    intro top h
    refine Key.updatePath_eq_self (fun k k' hk => ?_) h
    rw [appendValues] at hk
    split at hk
    · cases hk; simp
    · cases hk
  induction rounds generalizing values top with
  | zero =>
    cases eq_nil_of_length_eq_zero (Nat.le_zero.mp hrounds)
    rw [hnil top h]; rfl
  | succ rounds ih =>
    cases values with
    | nil => rw [hnil top h]; rfl
    | cons v values =>
      rw [valueEntries] at hfit ⊢
      obtain ⟨chunk, rest, hsplit, hchunk, hrest⟩ : ∃ chunk rest, v :: values = chunk ++ rest ∧
          (v :: values).take cmpValuesPerRecord = chunk ∧
          (v :: values).drop cmpValuesPerRecord = rest :=
        ⟨_, _, (take_append_drop _ _).symm, rfl, rfl⟩
      have hlen : rest.length ≤ rounds := by
        rw [← hrest, length_drop]; simp [cmpValuesPerRecord] at hrounds ⊢; omega
      simp only [hchunk, hrest] at hfit ⊢
      rw [hsplit] at h hvalues
      -- the chunk's record appends the chunk, the other records the rest
      have htwo : top.updatePath names (fun n => (appendValues stamp chunk n).bind
          (appendValues stamp rest)) = some top' := by
        refine Key.updatePath_mono (fun k k' hk => ?_) h
        rw [appendValues] at hk
        split at hk
        · rename_i hs
          cases hk
          have h1 : (k.values ++ chunk).Pairwise ValueBefore := by
            rw [← append_assoc] at hs; exact (pairwise_append.mp hs.2).1
          simp [appendValues, hs.1, h1, hs.2, append_assoc]
        · cases hk
      obtain ⟨top1, h1, h2⟩ := Key.updatePath_split (fun k k' hk => by
        rw [appendValues] at hk; split at hk
        · cases hk; rfl
        · cases hk) htwo
      have hvs : ∀ u ∈ chunk, u.Fits := fun u hu =>
        Value.fits_of_mem (hfit _ mem_cons_self) rfl hu (hvalues u (by simp [hu]))
      have happly := cmpApplyRecord_setEntry hnames hvs
        (Key.updatePath_mono (fun _ _ => setValues_of_appendValues) h1) now depth
      rw [applyEntries, happly]
      exact ih hlen (fun u hu => hvalues u (by simp [hu])) (fun e he => hfit e (.tail _ he)) h2

/-- Fill a key that was just created for `k`: its values and the subkeys a snapshot keeps. -/
def fill (k : Key) (node : Key) : Option Key :=
  if node.lastWriteTime = k.lastWriteTime ∧ node.values = [] ∧ node.subkeys.length = 0 then
    some { node with values := k.values, subkeys := k.subkeys.filterMap (keep id) }
  else none

def appendSubkeys (subkeys : List Key) (node : Key) : Option Key :=
  if ∀ a ∈ node.subkeys, ∀ c ∈ subkeys, KeyBefore a c then
    some { node with subkeys := node.subkeys ++ subkeys.filterMap (keep id) }
  else none

theorem appendSubkeys_eq_some {node' : Key} (h : appendSubkeys subkeys node = some node') :
    (∀ a ∈ node.subkeys, ∀ c ∈ subkeys, KeyBefore a c) ∧
      node' = { node with subkeys := node.subkeys ++ subkeys.filterMap (keep id) } := by
  rw [appendSubkeys] at h
  split at h
  · exact ⟨‹_›, (Option.some.inj h).symm⟩
  · cases h

theorem createChild_fill {c : Key} (hdepth : depth < cmpHiveMaxDepth)
    (hbefore : ∀ a ∈ node.subkeys, KeyBefore a c) :
    (createChild c.lastWriteTime c.isLink depth c.name node).bind
        (Key.updatePath [c.name] (fill c)) =
      some { node with subkeys := node.subkeys ++ [c.project id] } := by
  have hne : ∀ a ∈ node.subkeys, rtlEqualUnicodeString a.name c.name = false := fun a ha =>
    Before.not_equal (hbefore a ha)
  have hins : cmpLinkSubkeySorted node.subkeys (freshKey c.lastWriteTime c.isLink c.name) =
      node.subkeys ++ [freshKey c.lastWriteTime c.isLink c.name] :=
    orderedInsert_append fun a ha h => Before.asymm (hbefore a ha) h
  have hfill : fill c (freshKey c.lastWriteTime c.isLink c.name) = some (c.project id) := by
    rw [fill, if_pos ⟨rfl, rfl, rfl⟩, Key.project_eq]
    rfl
  rw [createChild, cmpFindSubkey_eq_none_iff.mpr hne]
  simp only [if_neg (Nat.not_le.mpr hdepth), Option.bind_some, Key.updatePath, hins]
  rw [updateFirst_append (c := freshKey c.lastWriteTime c.isLink c.name) hne
    (rtlEqualUnicodeString_self _), hfill]
  rfl

theorem createChild_name {link : Bool} {name : WStr} {k' : Key}
    (h : createChild stamp link depth name k = some k') : k'.name = k.name := by
  rw [createChild] at h
  split at h
  · cases h; rfl
  · split at h
    · cases h
    · cases h; rfl

theorem applyEntries_subkeys {now : UInt64} {depth n : Nat} {names : List WStr}
    (hnames : ∀ m ∈ names, ValidName m) {subkeys : List Key}
    (hsorted : subkeys.Pairwise KeyBefore) (hvalid : ∀ c ∈ subkeys, ValidName c.name)
    (hok : ∀ c ∈ subkeys, c.isVolatile = false → c.Ok n)
    (hdepth : depth + names.length + (n + 1) ≤ 97)
    (ih : ∀ c ∈ subkeys, c.isVolatile = false →
      ∀ {top top' : Key}, (∀ e ∈ contentEntries (names ++ [c.name]) c, e.Fits) →
      top.updatePath (names ++ [c.name]) (fill c) = some top' →
      applyEntries now depth (contentEntries (names ++ [c.name]) c) top = some top')
    (hfit : ∀ e ∈ subkeyEntries names subkeys, e.Fits) {top top' : Key}
    (h : top.updatePath names (appendSubkeys subkeys) = some top') :
    applyEntries now depth (subkeyEntries names subkeys) top = some top' := by
  induction subkeys generalizing top with
  | nil =>
    have : top' = top := Key.updatePath_eq_self (fun k k' hk => by
      obtain ⟨-, rfl⟩ := appendSubkeys_eq_some hk
      simp) h
    rw [this]; rfl
  | cons c rest ihl =>
    obtain ⟨hc, hrest⟩ := pairwise_cons.mp hsorted
    have ihl := @ihl hrest (fun d hd => hvalid d (.tail _ hd)) (fun d hd => hok d (.tail _ hd))
      (fun d hd => ih d (.tail _ hd))
    rw [subkeyEntries] at hfit ⊢
    cases hvol : c.isVolatile with
    | true =>
      simp only [hvol, if_true, nil_append] at hfit ⊢
      refine ihl hfit (Key.updatePath_mono (fun k k' hk => ?_) h)
      obtain ⟨hb, rfl⟩ := appendSubkeys_eq_some hk
      rw [appendSubkeys, if_pos fun a ha d hd => hb a ha d (mem_cons_of_mem _ hd)]
      simp [keep, hvol]
    | false =>
      simp only [hvol, Bool.false_eq_true, if_false, cons_append] at hfit ⊢
      have hcok := hok c mem_cons_self hvol
      have hlt : depth + names.length < cmpHiveMaxDepth := by
        cases hcok; simp only [cmpHiveMaxDepth]; omega
      -- create the key, fill it, then append the rest
      have hthree : top.updatePath names (fun k => (createChild c.lastWriteTime c.isLink
          (depth + names.length) c.name k).bind fun k =>
            (k.updatePath [c.name] (fill c)).bind (appendSubkeys rest)) = some top' := by
        refine Key.updatePath_mono (fun k k' hk => ?_) h
        obtain ⟨hb, rfl⟩ := appendSubkeys_eq_some hk
        rw [← Option.bind_assoc, createChild_fill hlt fun a ha => hb a ha c mem_cons_self,
          Option.bind_some, appendSubkeys, if_pos]
        · simp [keep, hvol]
        · intro a ha d hd
          rcases mem_append.mp ha with ha | ha
          · exact hb a ha d (.tail _ hd)
          · rw [mem_singleton.mp ha, KeyBefore, Key.project_eq]
            exact hc d hd
      obtain ⟨top1, h1, h2⟩ := Key.updatePath_split (fun _ _ => createChild_name) hthree
      obtain ⟨top2, h2, h3⟩ := Key.updatePath_split (fun k k' hk => Key.updatePath_name
        (fun k k' hk => by
          rw [fill] at hk; split at hk
          · cases hk; rfl
          · cases hk) hk) h2
      rw [← Key.updatePath_append] at h2
      have hcreate : cmpApplyRecord now depth top (createEntry (names ++ [c.name]) c).record =
          (top1, true) :=
        cmpApplyRecord_createKey (hvalid c mem_cons_self) hnames rfl rfl rfl h1 now
      rw [applyEntries, hcreate]
      simp only
      rw [applyEntries_append, ih c mem_cons_self hvol (fun e he => hfit e (by simp [he])) h2]
      exact ihl (fun e he => hfit e (by simp [he])) h3

/-- The records of a key after its CREATE_KEY fill the key they are applied to. The induction is on
the tree; below a subkey the path is longer by one component and the tree lower by one level. -/
theorem applyEntries_content (k : Key) : ∀ {n : Nat} {names : List WStr},
    k.Ok n → (∀ m ∈ names, ValidName m) → depth + names.length + n ≤ 97 →
    (∀ e ∈ contentEntries names k, e.Fits) → ∀ {top top' : Key},
    top.updatePath names (fill k) = some top' →
    applyEntries now depth (contentEntries names k) top = some top' := by
  induction k using Key.induct with
  | h k ih =>
    intro n names hok hnames hdepth hfit top top' h
    cases hok with
    | @mk n _ hvs hvn hss hsn hsub =>
      rw [contentEntries_eq] at hfit ⊢
      have htwo : top.updatePath names (fun m => (appendValues k.lastWriteTime k.values m).bind
          (appendSubkeys k.subkeys)) = some top' := by
        refine Key.updatePath_mono (fun m m' hm => ?_) h
        rw [fill] at hm
        split at hm
        · rename_i hfresh
          have hnil : m.subkeys = [] := eq_nil_of_length_eq_zero hfresh.2.2
          rw [appendValues, if_pos ⟨hfresh.1, by rw [hfresh.2.1]; exact hvs⟩, Option.bind_some,
            appendSubkeys, if_pos (by simp [hnil])]
          simpa [hfresh.2.1, hnil] using hm
        · cases hm
      obtain ⟨top1, h1, h2⟩ := Key.updatePath_split (fun m m' hm => by
        rw [appendValues] at hm; split at hm
        · cases hm; rfl
        · cases hm) htwo
      rw [applyEntries_append, applyEntries_values hnames le_rfl hvn
        (fun e he => hfit e (mem_append_left _ he)) h1]
      refine applyEntries_subkeys hnames hss hsn hsub hdepth ?_
        (fun e he => hfit e (mem_append_right _ he)) h2
      intro c hc hvol top top' hfitc hup
      refine ih c hc (hsub c hc hvol) ?_ (by simp; omega) hfitc hup
      intro m hm
      rcases mem_append.mp hm with hm | hm
      · exact hnames m hm
      · rw [mem_singleton.mp hm]; exact hsn c hc

theorem applyEntries_snapshot {dst : Key} (hok : k.Ok n)
    (hvalues : dst.values = []) (hsubkeys : dst.subkeys = []) (hdepth : depth + n ≤ 97)
    (hfit : ∀ e ∈ contentEntries [] k, e.Fits) :
    applyEntries now depth (snapshotEntries k) dst =
      some { dst with
        values := k.values, lastWriteTime := k.lastWriteTime, isLink := k.isLink,
        subkeys := (k.project id).subkeys } := by
  have hlink : decide (linkFlag k.isLink &&& 1 ≠ 0) = k.isLink ∧
      linkFlag k.isLink &&& ~~~1 = 0 := by
    cases k.isLink <;> decide
  have hcreate : cmpApplyRecord now depth dst (createEntry [] k).record =
      ({ dst with lastWriteTime := k.lastWriteTime, isLink := k.isLink }, true) := by
    simp only [cmpApplyRecord, createEntry, Entry.record, cmpBuildPath, foldl_nil,
      cmpResolveRecordKey, if_true, hlink.2, decide_true]
    exact congrArg (fun link => ({ dst with lastWriteTime := k.lastWriteTime, isLink := link },
      true)) hlink.1
  rw [snapshotEntries, applyEntries, hcreate]
  refine applyEntries_content k hok (by simp) (by simpa using hdepth) hfit ?_
  rw [Key.updatePath, fill, if_pos ⟨rfl, hvalues, by simp [hsubkeys]⟩, Key.project_eq]

theorem valueEntries_mem {e : Entry} (h : e ∈ valueEntries names stamp rounds values) :
    e.names = names ∧ e.valueCount ≤ cmpValuesPerRecord := by
  induction rounds generalizing values with
  | zero => cases h
  | succ rounds ih =>
    cases values with
    | nil => cases h
    | cons v values =>
      rcases mem_cons.mp h with rfl | h
      · exact ⟨rfl, length_take_le _ _⟩
      · exact ih h

/-- Paths of a snapshot go through at most as many components as the tree has levels, and no record
holds more values than the chunk size. -/
theorem contentEntries_bounds (k : Key) : ∀ {n : Nat} {names : List WStr}, k.Ok n →
    (∀ m ∈ names, m.length ≤ 256) → ∀ e ∈ contentEntries names k,
      e.names.length + 1 ≤ names.length + n ∧ (∀ m ∈ e.names, m.length ≤ 256) ∧
        e.valueCount ≤ cmpValuesPerRecord := by
  induction k using Key.induct with
  | h k ih =>
    intro n names hok hnames e he
    cases hok with
    | @mk n _ hvs hvn hss hsn hsub =>
      rw [contentEntries_eq] at he
      rcases mem_append.mp he with he | he
      · obtain ⟨h1, h2⟩ := valueEntries_mem he
        rw [h1]
        exact ⟨by omega, hnames, h2⟩
      · obtain ⟨c, hc, hvol, he⟩ : ∃ c ∈ k.subkeys, c.isVolatile = false ∧
            e ∈ createEntry (names ++ [c.name]) c :: contentEntries (names ++ [c.name]) c := by
          clear ih hvs hvn hss hsn hsub
          generalize k.subkeys = subkeys at he
          induction subkeys with
          | nil => cases he
          | cons c rest ihl =>
            rw [subkeyEntries] at he
            rcases mem_append.mp he with he | he
            · split at he
              · cases he
              · exact ⟨c, mem_cons_self, by simpa using ‹¬ c.isVolatile = true›, he⟩
            · obtain ⟨d, hd, h⟩ := ihl he
              exact ⟨d, mem_cons_of_mem _ hd, h⟩
        have hnames' : ∀ m ∈ names ++ [c.name], m.length ≤ 256 := by
          intro m hm
          rcases mem_append.mp hm with hm | hm
          · exact hnames m hm
          · rw [mem_singleton.mp hm]; exact (hsn c hc).length_le
        have hcok := hsub c hc hvol
        rcases mem_cons.mp he with rfl | he
        · have hpos : 1 ≤ n := by cases hcok; omega
          exact ⟨by simp [createEntry]; omega, hnames', Nat.zero_le _⟩
        · have := ih c hc hcok hnames' e he
          simp only [length_append, length_singleton] at this
          exact ⟨by omega, this.2⟩

/-- Every record of a snapshot within 96 levels and the cap fits its fields. -/
theorem snapshot_fits (hok : k.Ok n) (hn : n ≤ 96)
    (hcap : (snapshot k).length ≤ cmpHiveMaxBytes) : ∀ e ∈ snapshotEntries k, e.Fits := by
  intro e he
  have hlen : e.encode.length ≤ (snapshot k).length := by
    obtain ⟨a, b, hab⟩ := append_of_mem he
    rw [snapshot, hab]
    simp only [flatMap_append, flatMap_cons, length_append]
    omega
  refine ⟨?_, ?_, by simp only [cmpHiveMaxBytes] at hcap; omega⟩
  all_goals
    rcases mem_cons.mp he with rfl | he
    · simp [createEntry, cmpBuildPath]
    · have hb := @contentEntries_bounds k n [] hok (by simp) e he
      simp only [length_nil, cmpValuesPerRecord] at hb
      have hpath := length_cmpBuildPath_le e.names hb.2.1
      omega

/-- **Snapshot round trip.** What `CmpSerializeSubtree` writes of a well formed key,
`CmpParseSubtreeInto` reads into an empty key at any depth where the levels fit under 96, and that
key then holds the values, the stamp, the link flag and the non-volatile subkeys of the source. -/
theorem cmpParseSubtreeInto_cmpSerializeSubtree {pool : Bool} {k dst : Key} {n depth : Nat}
    {bytes : List UInt8} (hok : k.Ok n) (hvalues : dst.values = []) (hsubkeys : dst.subkeys = [])
    (hpos : 0 < depth) (hdepth : depth + n ≤ cmpHiveMaxDepth + 1)
    (h : cmpSerializeSubtree pool k = .ok bytes) (now : UInt64) :
    cmpParseSubtreeInto now depth dst bytes =
      (statusSuccess, { dst with
        values := k.values, lastWriteTime := k.lastWriteTime, isLink := k.isLink,
        subkeys := (k.project id).subkeys }) := by
  obtain ⟨rfl, hcap⟩ := cmpSerializeSubtree_ok h
  have hn : 1 ≤ n := by cases hok; omega
  simp only [cmpHiveMaxDepth] at hdepth
  have hfit := snapshot_fits hok (by omega) hcap
  have happly := @applyEntries_snapshot _ _ _ now _ hok hvalues hsubkeys hdepth
    fun e he => hfit e (mem_cons_of_mem _ he)
  exact cmpReplayImage_entries hfit happly hpos (by simp only [cmpHiveMaxDepth]; omega)
    (by simp [snapshotEntries]) hcap false

/-- A link key with one value, below a key with two values, beside a volatile key. -/
def sampleKey : Key :=
  { newNode 7 [0x52] with
    values := [⟨[0x41], 4, [1, 2, 3]⟩, ⟨[0x62], 1, []⟩]
    subkeys :=
      [{ newNode 9 [0x4B, 0x65] with isLink := true, values := [⟨[], 6, [0x5C, 0]⟩] },
       { newNode 8 [0x76] with isVolatile := true }] }

theorem sampleKey_ok : sampleKey.Ok 2 := by decide +kernel

theorem cmpParseSubtreeInto_sampleKey :
    cmpSerializeSubtree true sampleKey = .ok (snapshot sampleKey) ∧
      cmpParseSubtreeInto 3 95 (newNode 3 [0x64]) (snapshot sampleKey) =
        (statusSuccess, { newNode 3 [0x64] with
          values := sampleKey.values, lastWriteTime := 7,
          subkeys := [{ newNode 9 [0x4B, 0x65] with
            isLink := true, values := [⟨[], 6, [0x5C, 0]⟩] }] }) := by
  have hser : cmpSerializeSubtree true sampleKey = .ok (snapshot sampleKey) := by
    rw [cmpSerializeSubtree_eq, if_neg (by decide +kernel)]
  exact ⟨hser, cmpParseSubtreeInto_cmpSerializeSubtree sampleKey_ok rfl rfl (by decide)
    (by decide) hser 3⟩

end Proskrnl.Cm
