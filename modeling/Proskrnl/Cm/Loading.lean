import Proskrnl.Cm.NodeReplay
import Proskrnl.Cm.TornAppend

/-!
# Loading an image that nobody vouches for

`CmpParseSubtreeInto` of `kernel/cm/hive.c` on any bytes at all, into a key that was created empty.
What it reads lies inside the buffer (`imageReads`). A record may bring in a name that no service
would have taken: a component or a new name of more than 256 units, a new name with a separator in
it or one that a sibling has, a value name of more than 16383 units. `Orderly` says that it does
not, and a record keeps the tree sane exactly then (`cmpApplyRecord_sane_iff`). A refused image
leaves the key as it was, but for the link flag that a record for the key itself has set. The pool
may run out in any record, which is then refused like one that is malformed.
-/

namespace Proskrnl.Cm

namespace Node

open Bytes ListUpdate List

/-! ## Sane trees -/

/-- No value below a node has a name that NtSetValueKey would refuse. -/
inductive ShortValues : Node → Prop
  | mk {n : Node} : (∀ v ∈ n.values, v.name.length ≤ 16383) →
    (∀ c ∈ n.subkeys, ShortValues c) → ShortValues n

/-- What every service relies on, in the tree below a key at depth `d`. -/
structure Sane (d : Nat) (n : Node) : Prop where
  wf : n.Wf d
  short : n.ShortValues

section
variable {now : UInt64} {pool : RecordPool} {d addr addr' i : Nat} {t top top' n m c : Node}
  {p q : Pos} {f : Node → Node} {record : Record}

theorem ShortValues.values (h : n.ShortValues) : ∀ v ∈ n.values, v.name.length ≤ 16383 := by
  cases h
  assumption

theorem ShortValues.subkeys (h : n.ShortValues) : ∀ c ∈ n.subkeys, c.ShortValues := by
  cases h
  assumption

theorem Sane.subkeys (h : n.Sane d) : ∀ c ∈ n.subkeys, c.Sane (d + 1) := fun c hc =>
  ⟨h.wf.subkeys c hc, h.short.subkeys c hc⟩

theorem Sane.get? (h : t.Sane d) (hp : t.get? p = some n) : n.Sane (d + p.length) := by
  refine ⟨h.wf.get? hp, ?_⟩
  have hshort := h.short
  clear h
  induction p generalizing t with
  | nil =>
    cases hp
    exact hshort
  | cons i p ih =>
    obtain ⟨c, hc, hp⟩ := Option.bind_eq_some_iff.mp hp
    exact ih hp (hshort.subkeys c (mem_of_getElem? hc))

theorem ShortValues.modifyAt (h : t.ShortValues) (hf : ∀ n, t.get? p = some n →
    (f n).ShortValues) : (t.modifyAt f p).ShortValues := by
  induction p generalizing t with
  | nil => exact hf t rfl
  | cons i p ih =>
    refine .mk h.values fun x hx => ?_
    rw [Node.modifyAt] at hx
    obtain ⟨j, hj⟩ := getElem?_of_mem hx
    rw [getElem?_modify] at hj
    split at hj
    case isTrue hij =>
      obtain ⟨c, hc, rfl⟩ := Option.map_eq_some_iff.mp hj
      refine ih (h.subkeys c (mem_of_getElem? hc)) fun n hn => hf n ?_
      rw [Node.get?, hij, hc]
      exact hn
    case isFalse => exact h.subkeys x (mem_of_getElem? (by simpa using hj))

theorem Sane.modifyAt_iff (h : t.Sane d) (hp : t.get? p = some n) (hname : (f n).name = n.name) :
    (t.modifyAt f p).Sane d ↔ (f n).Sane (d + p.length) := by
  refine ⟨fun hmod => hmod.get? (get?_modifyAt hp), fun hn => ?_⟩
  refine ⟨h.wf.modifyAt hp hname hn.wf, h.short.modifyAt fun n' hn' => ?_⟩
  rw [hp] at hn'
  cases hn'
  exact hn.short

/-- Stamps, flags, names, addresses and bodies do not matter. -/
theorem Sane.congr (h : n.Sane d) (hdeleted : m.deleted = n.deleted) (hvalues : m.values = n.values)
    (hvalueCount : m.valueCount = n.valueCount) (hsubkeys : m.subkeys = n.subkeys)
    (hsubkeyCount : m.subkeyCount = n.subkeyCount) : m.Sane d := by
  refine ⟨h.wf.congr hdeleted hvalues hvalueCount hsubkeys hsubkeyCount, .mk ?_ ?_⟩
  · rw [hvalues]
    exact h.short.values
  · rw [hsubkeys]
    exact h.short.subkeys

/-! ## Names that come in -/

theorem length_eq_of_equal {s u : WStr} (h : rtlEqualUnicodeString s u = true) :
    s.length = u.length := by
  have := congrArg List.length (rtlEqualUnicodeString_iff.mp h)
  simpa [foldUnits] using this

/-- In a list that is kept in strict order every two members are told apart by their names. -/
theorem not_found_of_sorted {siblings : List Node}
    (h : (cmpLinkSubkeySorted siblings c).Pairwise NodeBefore) :
    ∀ x ∈ siblings, rtlEqualUnicodeString x.name c.name = false := by
  have hsym : (cmpLinkSubkeySorted siblings c).Pairwise
      fun a b => Before a.name b.name ∨ Before b.name a.name := h.imp Or.inl
  have hperm := perm_orderedInsert NodeBefore c siblings
  have hcons := (hperm.pairwise_iff (fun h => Or.symm h)).mp hsym
  intro x hx
  rcases (pairwise_cons.mp hcons).1 x hx with hbefore | hbefore
  · rw [rtlEqualUnicodeString_comm]
    exact hbefore.not_equal
  · exact hbefore.not_equal

theorem Sane.linkChild_iff (h : n.Sane d) (hc : c.Sane (d + 1)) :
    (n.linkChild c).Sane d ↔ ValidName c.name ∧ n.cmpFindSubkey c.name = none := by
  have hmem : ∀ x, x ∈ cmpLinkSubkeySorted n.subkeys c ↔ x = c ∨ x ∈ n.subkeys := fun x =>
    mem_orderedInsert NodeBefore
  refine ⟨fun hlink => ⟨?_, ?_⟩, fun ⟨hname, hfind⟩ => ⟨h.wf.linkChild hc.wf hname hfind, ?_⟩⟩
  · exact hlink.wf.names_valid c ((hmem c).mpr (.inl rfl))
  · exact findIdx?_eq_none_iff.mpr (not_found_of_sorted hlink.wf.subkeys_sorted)
  · refine .mk h.short.values fun x hx => ?_
    rcases (hmem x).mp hx with rfl | hx
    · exact hc.short
    · exact h.short.subkeys x hx

theorem Sane.unlinkChild (h : n.Sane d) (hi : i < n.subkeys.length) : (n.unlinkChild i).Sane d := by
  refine ⟨h.wf.unlinkChild hi, .mk h.short.values fun x hx => ?_⟩
  exact h.short.subkeys x (mem_of_mem_eraseIdx hx)

theorem Sane.cmpRenameNode_iff {stamp : UInt64} {newName : WStr} (h : n.Sane d)
    (hi : n.subkeys[i]? = some c) :
    (n.cmpRenameNode stamp i newName).Sane d ↔
      ValidName newName ∧ (n.unlinkChild i).cmpFindSubkey newName = none := by
  have hlt : i < n.subkeys.length := (List.getElem?_eq_some_iff.mp hi).1
  have hc : Sane (d + 1) { c with name := newName, lastWriteTime := stamp } :=
    (h.subkeys c (mem_of_getElem? hi)).congr rfl rfl rfl rfl rfl
  have hcount : n.subkeyCount = n.subkeyCount - 1 + 1 := by
    have := h.wf.subkeyCount_eq
    omega
  rw [Node.cmpRenameNode, hi]
  refine Iff.trans ?_ ((h.unlinkChild hlt).linkChild_iff hc)
  exact ⟨fun hren => hren.congr rfl rfl rfl rfl hcount.symm,
    fun hlink => hlink.congr rfl rfl rfl rfl hcount⟩

theorem getElem?_sortedIndex (siblings : List Node) (c : Node) :
    (cmpLinkSubkeySorted siblings c)[sortedIndex siblings c.name]? = some c := by
  induction siblings with
  | nil => rfl
  | cons s siblings ih =>
    rw [cmpLinkSubkeySorted, List.orderedInsert, sortedIndex, findIdx_cons]
    by_cases hs : NodeBefore c s
    · have hname : Before c.name s.name := hs
      rw [if_pos hs, decide_eq_true hname]
      rfl
    · have hname : ¬ Before c.name s.name := hs
      rw [if_neg hs, decide_eq_false hname]
      exact ih

/-! ## Values -/

theorem cmpSetValue_short {name : WStr} {type : UInt32} {data : List UInt8}
    (h : ∀ v ∈ n.values, v.name.length ≤ 16383) (hname : name.length ≤ 16383) :
    ∀ v ∈ (n.cmpSetValue name type data).values, v.name.length ≤ 16383 := by
  intro v hv
  rw [cmpSetValue] at hv
  split at hv
  case h_1 j hj =>
    obtain ⟨l1, w, l2, hvalues, rfl, -, -⟩ := findIdx?_eq_some_iff_append.mp hj
    rw [hvalues, modify_append_cons] at hv
    rw [hvalues] at h
    simp only [mem_append, mem_cons] at h hv
    rcases hv with hv | rfl | hv
    · exact h v (.inl hv)
    · exact h w (.inr (.inl rfl))
    · exact h v (.inr (.inr hv))
  case h_2 =>
    rcases (mem_orderedInsert ValueBefore).mp hv with rfl | hv
    · exact hname
    · exact h v hv

theorem cmpSetValue_kept {name : WStr} {type : UInt32} {data : List UInt8} {v : Value}
    (hv : v ∈ n.values) : ∃ w ∈ (n.cmpSetValue name type data).values, w.name = v.name := by
  rw [cmpSetValue]
  split
  case h_1 j hj =>
    obtain ⟨l1, w, l2, hvalues, rfl, -, -⟩ := findIdx?_eq_some_iff_append.mp hj
    rw [hvalues] at hv
    simp only [hvalues, modify_append_cons]
    rcases mem_append.mp hv with hv | hv
    · exact ⟨v, mem_append_left _ hv, rfl⟩
    · rcases mem_cons.mp hv with rfl | hv
      · exact ⟨_, mem_append_right _ mem_cons_self, rfl⟩
      · exact ⟨v, mem_append_right _ (.tail _ hv), rfl⟩
  case h_2 => exact ⟨v, (mem_orderedInsert ValueBefore).mpr (.inr hv), rfl⟩

theorem cmpSetValue_set (n : Node) (name : WStr) (type : UInt32) (data : List UInt8) :
    ∃ w ∈ (n.cmpSetValue name type data).values, rtlEqualUnicodeString w.name name = true := by
  rw [cmpSetValue]
  split
  case h_1 j hj =>
    obtain ⟨l1, w, l2, hvalues, rfl, hw, -⟩ := findIdx?_eq_some_iff_append.mp hj
    simp only [hvalues, modify_append_cons]
    exact ⟨_, mem_append_right _ mem_cons_self, hw⟩
  case h_2 =>
    exact ⟨_, (mem_orderedInsert ValueBefore).mpr (.inl rfl), rtlEqualUnicodeString_self _⟩

theorem cmpApplyValues_kept (pool : RecordPool) (count : Nat) (cursor : List UInt8) {v : Value}
    (hv : v ∈ n.values) : ∃ w ∈ (cmpApplyValues pool count cursor n).1.values, w.name = v.name := by
  induction count generalizing pool cursor n v with
  | zero => exact ⟨v, hv, rfl⟩
  | succ count ih =>
    rw [cmpApplyValues]
    split
    · exact ⟨v, hv, rfl⟩
    · simp only
      split
      · exact ⟨v, hv, rfl⟩
      · split
        · exact ⟨v, hv, rfl⟩
        · obtain ⟨w, hw, hname⟩ := cmpSetValue_kept hv
          obtain ⟨u, hu, huname⟩ := ih _ _ hw
          exact ⟨u, hu, huname.trans hname⟩

theorem values_cmpSetValue (n : Node) (name : WStr) (type : UInt32) (data : List UInt8) :
    (n.cmpSetValue name type data).values = setValueIn n.values name type data := by
  rw [cmpSetValue, cmpFindValue, setValueIn]
  cases n.values.findIdx? fun v => rtlEqualUnicodeString v.name name <;> rfl

/-- The values that a SET_VALUES binds in a node with the values `values`: those in front of the
first that is malformed or finds no pool. -/
def boundValues : RecordPool → Nat → List UInt8 → List Value → List Value
  | _, 0, _, _ => []
  | pool, count + 1, cursor, values =>
    if cursor.length < 12 then []
    else
      let nameBytes := 2 * field cursor 0 2
      let dataBytes := field cursor 8 4
      let used := roundUp8 (12 + nameBytes + dataBytes)
      if used > cursor.length then []
      else
        let v : Value :=
          { name := toUnits ((cursor.drop 12).take (nameBytes % 65536))
            type := UInt32.ofNat (field cursor 4 4)
            data := (cursor.drop (12 + nameBytes)).take dataBytes }
        if pool.isEmpty && setValueAllocates values v.name v.data then []
        else
          v :: boundValues pool.afterValue count (cursor.drop used)
            (setValueIn values v.name v.type v.data)

theorem cmpApplyValues_short_iff (pool : RecordPool) (count : Nat) (cursor : List UInt8)
    (h : ∀ v ∈ n.values, v.name.length ≤ 16383) :
    (∀ v ∈ (cmpApplyValues pool count cursor n).1.values, v.name.length ≤ 16383) ↔
      ∀ v ∈ boundValues pool count cursor n.values, v.name.length ≤ 16383 := by
  induction count generalizing pool cursor n with
  | zero => exact iff_of_true h (by simp [boundValues])
  | succ count ih =>
    rw [cmpApplyValues, boundValues]
    split
    · exact iff_of_true h (by simp)
    · simp only
      split
      · exact iff_of_true h (by simp)
      · split
        · exact iff_of_true h (by simp)
        · rw [forall_mem_cons, ← values_cmpSetValue]
          constructor
          · intro hall
            obtain ⟨w, hw, hequal⟩ := cmpSetValue_set n
              (toUnits ((cursor.drop 12).take (2 * field cursor 0 2 % 65536)))
              (UInt32.ofNat (field cursor 4 4))
              ((cursor.drop (12 + 2 * field cursor 0 2)).take (field cursor 8 4))
            obtain ⟨u, hu, huname⟩ := cmpApplyValues_kept _ count _ hw
            have hlength : (toUnits ((cursor.drop 12).take
                (2 * field cursor 0 2 % 65536))).length ≤ 16383 := by
              rw [← length_eq_of_equal hequal, ← huname]
              exact hall u hu
            exact ⟨hlength, (ih _ _ (cmpSetValue_short h hlength)).mp hall⟩
          · rintro ⟨hhead, htail⟩
            exact (ih _ _ (cmpSetValue_short h hhead)).mpr htail

theorem Sane.cmpApplyValues_iff (h : n.Sane d) (pool : RecordPool) (count : Nat)
    (cursor : List UInt8) : (cmpApplyValues pool count cursor n).1.Sane d ↔
      ∀ v ∈ boundValues pool count cursor n.values, v.name.length ≤ 16383 := by
  obtain ⟨hwf, hlinks⟩ := cmpApplyValues_wf pool count cursor h.wf
  rw [← cmpApplyValues_short_iff pool count cursor h.short.values]
  refine ⟨fun hsane => hsane.short.values, fun hshort => ⟨hwf, .mk hshort ?_⟩⟩
  rw [hlinks.subkeys]
  exact h.short.subkeys

theorem Sane.cmpRemoveValue {name : WStr} (h : n.Sane d) (hm : n.cmpRemoveValue name = some m) :
    m.Sane d := by
  refine ⟨h.wf.cmpRemoveValue hm, ?_⟩
  rw [Node.cmpRemoveValue] at hm
  split at hm
  · cases hm
    exact .mk (fun v hv => h.short.values v (mem_of_mem_eraseIdx hv)) h.short.subkeys
  · cases hm

/-! ## One record -/

/-- The names a record brings in are names that a service would have taken. -/
structure Orderly (now : UInt64) (pool : RecordPool) (d addr : Nat) (top : Node)
    (record : Record) : Prop where
  create : record.op = cmpOpCreateKey → record.path ≠ [] →
    (cmpResolveRecordKey now pool d addr top record.path true).isSome →
    (pathLeaf record.path).length ≤ 256
  set : record.op = cmpOpSetValues → ∀ t p a node,
    cmpResolveRecordKey now pool d addr top record.path false = some (t, p, a) →
    top.get? p = some node →
    ∀ v ∈ boundValues pool record.valueCount record.tail node.values, v.name.length ≤ 16383
  rename : record.op = cmpOpRenameKey → pool.isEnough → ∀ t q i a parent newName,
    cmpResolveRecordKey now pool d addr top record.path false = some (t, q ++ [i], a) →
    top.get? q = some parent → cmpReadTailName record.tail = some newName → newName ≠ [] →
    newName.length ≤ 256 ∧ backslash ∉ newName ∧
      (parent.unlinkChild i).cmpFindSubkey newName = none

variable {path : WStr}

theorem cmpResolveRecordKey_cases {create : Bool}
    (h : cmpResolveRecordKey now pool d addr top path create = some (top', p, addr')) :
    (path = [] ∧ top' = top ∧ p = []) ∨
    (path ≠ [] ∧ ∃ q node, pathLeaf path ≠ [] ∧ top.get? q = some node ∧
      ((∃ i, node.cmpFindSubkey (pathLeaf path) = some i ∧ top' = top ∧ p = q ++ [i]) ∨
        (node.cmpFindSubkey (pathLeaf path) = none ∧ create = true ∧
          d + q.length < cmpHiveMaxDepth ∧
          top' = top.modifyAt (fun _ => node.linkChild (newNode now addr (pathLeaf path))) q ∧
          p = q ++ [sortedIndex node.subkeys (pathLeaf path)]))) := by
  rw [cmpResolveRecordKey] at h
  split at h
  case isTrue hpath =>
    cases h
    exact .inl ⟨hpath, rfl, rfl⟩
  case isFalse hpath =>
    simp only at h
    split at h
    case h_1 => cases h
    case h_2 q hq =>
      split at h
      case isTrue => cases h
      case isFalse hleaf =>
        split at h
        case h_1 => cases h
        case h_2 node hnode =>
          refine .inr ⟨hpath, q, node, hleaf, hnode, ?_⟩
          split at h
          case h_1 i hi =>
            cases h
            exact .inl ⟨i, hi, rfl, rfl⟩
          case h_2 hfind =>
            split at h
            case isFalse => cases h
            case isTrue hcreate =>
              rw [cmpAllocateNode] at h
              by_cases hdepth : d + q.length ≥ cmpHiveMaxDepth
              · rw [if_pos hdepth] at h
                cases h
              · rw [if_neg hdepth] at h
                cases h
                have hcreate := (Bool.and_eq_true_iff.mp hcreate).1
                exact .inr ⟨hfind, hcreate, Nat.lt_of_not_le hdepth, rfl, rfl⟩

theorem newNode_sane (now : UInt64) (addr : Nat) (name : WStr) (h : d ≤ cmpHiveMaxDepth) :
    (newNode now addr name).Sane d := by
  refine ⟨.mk h rfl .nil rfl .nil rfl ?_ ?_, .mk ?_ ?_⟩
  all_goals simp [newNode]

theorem resolved_get? {create : Bool}
    (h : cmpResolveRecordKey now pool d addr top path create = some (top', p, addr')) :
    ∃ n, top'.get? p = some n := by
  obtain ⟨-, rfl, rfl⟩ | ⟨-, q, node, -, hnode, ⟨i, hi, rfl, rfl⟩ | ⟨-, -, -, rfl, rfl⟩⟩ :=
    cmpResolveRecordKey_cases h
  · exact ⟨_, rfl⟩
  · obtain ⟨l1, c, l2, hsub, rfl, -, -⟩ := findIdx?_eq_some_iff_append.mp hi
    exact ⟨c, by rw [get?_concat hnode, hsub, getElem?_append_cons]⟩
  · exact ⟨_, (get?_concat (get?_modifyAt hnode) _).trans (getElem?_sortedIndex _ _)⟩

theorem Sane.create_iff (h : top.Sane d)
    (hr : cmpResolveRecordKey now pool d addr top path true = some (top', p, addr'))
    (hname : ∀ n, (f n).name = n.name) (hf : ∀ n e, n.Sane e → (f n).Sane e) :
    (top'.modifyAt f p).Sane d ↔ (path ≠ [] → (pathLeaf path).length ≤ 256) := by
  obtain ⟨n, hn⟩ := resolved_get? hr
  obtain ⟨rfl, rfl, rfl⟩ | ⟨hpath, q, node, hleaf, hnode, ⟨i, hi, rfl, rfl⟩ |
      ⟨hfind, -, hdepth, rfl, rfl⟩⟩ := cmpResolveRecordKey_cases hr
  · exact iff_of_true (hf _ _ h) fun hne => absurd rfl hne
  · -- a name that is found has the length of one that is there
    refine iff_of_true ((h.modifyAt_iff hn (hname n)).mpr (hf n _ (h.get? hn))) fun _ => ?_
    obtain ⟨l1, c, l2, hsub, -, hequal, -⟩ := findIdx?_eq_some_iff_append.mp hi
    have hvalid := (h.get? hnode).wf.names_valid c (by rw [hsub]; simp)
    rw [← length_eq_of_equal hequal]
    exact hvalid.length_le
  · have hchild : (newNode now addr (pathLeaf path)).Sane (d + q.length + 1) :=
      newNode_sane now addr _ (by omega)
    have hlink := (h.get? hnode).linkChild_iff hchild
    have hnew : n.name = pathLeaf path := by
      have hat := getElem?_sortedIndex node.subkeys (newNode now addr (pathLeaf path))
      have heq := hn.symm.trans ((get?_concat (get?_modifyAt hnode) _).trans hat)
      cases heq
      rfl
    constructor
    · intro hsane _
      obtain ⟨parent, hparent, hat⟩ := parent_of_get? (get?_modifyAt (f := f) hn) (i :=
        sortedIndex node.subkeys (pathLeaf path)) (by simp)
      rw [dropLast_concat] at hparent
      have hvalid := (hsane.get? hparent).wf.names_valid _ (mem_of_getElem? hat)
      rw [hname, hnew] at hvalid
      exact hvalid.length_le
    · intro hlength
      have hvalid : ValidName (pathLeaf path) :=
        ⟨hleaf, hlength hpath, no_separator_pathLeaf path⟩
      have hsane := (h.modifyAt_iff (f := fun _ =>
        node.linkChild (newNode now addr (pathLeaf path))) hnode rfl).mpr
          (hlink.mpr ⟨hvalid, hfind⟩)
      exact (hsane.modifyAt_iff hn (hname n)).mpr (hf n _ (hsane.get? hn))

theorem orderly_create_iff {resolved : Node × List Nat × Nat} (hop : record.op = cmpOpCreateKey)
    (hr : cmpResolveRecordKey now pool d addr top record.path true = some resolved) :
    Orderly now pool d addr top record ↔
      (record.path ≠ [] → (pathLeaf record.path).length ≤ 256) := by
  constructor
  · exact fun horder hpath => horder.create hop hpath (by rw [hr]; rfl)
  · intro hleaf
    refine ⟨fun _ hpath _ => hleaf hpath, fun hop' => ?_, fun hop' => ?_⟩ <;>
      exact absurd (hop.symm.trans hop') (by decide)

theorem Orderly.of_other (hcreate : record.op ≠ cmpOpCreateKey) (hset : record.op ≠ cmpOpSetValues)
    (hrename : record.op ≠ cmpOpRenameKey) : Orderly now pool d addr top record :=
  ⟨fun hop => absurd hop hcreate, fun hop => absurd hop hset, fun hop => absurd hop hrename⟩

/-- A record that finds no key brings in nothing. -/
theorem Orderly.of_none {create : Bool} (hop : record.op = cmpOpCreateKey → create = true)
    (hop' : record.op ≠ cmpOpCreateKey → create = false)
    (hr : cmpResolveRecordKey now pool d addr top record.path create = none) :
    Orderly now pool d addr top record := by
  refine ⟨fun hc _ hsome => ?_, fun hs t p a node hsome => ?_, fun hs _ t q i a parent newName hsome => ?_⟩
  · obtain rfl := hop hc
    rw [hr] at hsome
    cases hsome
  all_goals
    obtain rfl := hop' (by rw [hs]; decide)
    rw [hr] at hsome
    cases hsome

section
variable {t : Node} {a : Nat} (hr : cmpResolveRecordKey now pool d addr top record.path false = some (t, p, a))
include hr

theorem orderly_set_iff (hop : record.op = cmpOpSetValues) (hn : top.get? p = some n) :
    Orderly now pool d addr top record ↔
      ∀ v ∈ boundValues pool record.valueCount record.tail n.values, v.name.length ≤ 16383 := by
  refine ⟨fun horder => horder.set hop _ _ _ n hr hn, fun hshort => ⟨fun hop' => ?_, ?_, fun hop' => ?_⟩⟩
  · exact absurd (hop.symm.trans hop') (by decide)
  · intro _ t' q a' node hr' hnode
    rw [hr] at hr'
    cases hr'
    rw [hn] at hnode
    cases hnode
    exact hshort
  · exact absurd (hop.symm.trans hop') (by decide)

/-- A rename that is refused before the name is looked at brings in nothing. -/
theorem Orderly.of_unnamed (hop : record.op = cmpOpRenameKey)
    (hrefused : pool.isEnough → ∀ i newName, p.getLast? = some i →
      cmpReadTailName record.tail = some newName → newName = []) :
    Orderly now pool d addr top record := by
  refine ⟨fun hop' => ?_, fun hop' => ?_, fun _ henough t' q i a' parent newName hr' _ hname hne => ?_⟩
  · exact absurd (hop.symm.trans hop') (by decide)
  · exact absurd (hop.symm.trans hop') (by decide)
  · rw [hr] at hr'
    simp only [Option.some.injEq, Prod.mk.injEq] at hr'
    exact absurd (hrefused henough i newName (by rw [hr'.2.1]; simp) hname) hne

theorem orderly_rename_iff {parent : Node} {newName : WStr} (hop : record.op = cmpOpRenameKey)
    (henough : pool.isEnough) (hi : p.getLast? = some i) (hparent : top.get? p.dropLast = some parent)
    (hname : cmpReadTailName record.tail = some newName) (hne : newName ≠ []) :
    Orderly now pool d addr top record ↔
      newName.length ≤ 256 ∧ backslash ∉ newName ∧
        (parent.unlinkChild i).cmpFindSubkey newName = none := by
  have hp : p = p.dropLast ++ [i] := (dropLast_append_getLast? i hi).symm
  constructor
  · intro horder
    exact horder.rename hop henough t p.dropLast i a parent newName (by rw [hr, ← hp]) hparent hname hne
  · intro hvalid
    refine ⟨fun hop' => ?_, fun hop' => ?_, ?_⟩
    · exact absurd (hop.symm.trans hop') (by decide)
    · exact absurd (hop.symm.trans hop') (by decide)
    · intro _ _ t' q j a' parent' newName' hr' hparent' hname' _
      rw [hr, hp] at hr'
      simp only [Option.some.injEq, Prod.mk.injEq] at hr'
      obtain ⟨hq, hj⟩ := append_inj' hr'.2.1 rfl
      cases hj
      rw [← hq, hparent] at hparent'
      cases hparent'
      rw [hname] at hname'
      cases hname'
      exact hvalid

/-- A record that creates nothing is about a key that is there. -/
theorem resolved_there : ∃ n, top.get? p = some n := by
  obtain ⟨-, -, rfl⟩ | ⟨-, q, node, -, hnode, ⟨i, hi, rfl, rfl⟩ | ⟨-, hfalse, -⟩⟩ :=
    cmpResolveRecordKey_cases hr
  · exact ⟨_, rfl⟩
  · exact resolved_get? hr
  · cases hfalse

end

/-- **A record keeps the tree sane exactly when it brings in no name out of order**, also one that
is refused half way. -/
theorem cmpApplyRecord_sane_iff (h : top.Sane d) :
    (cmpApplyRecord now pool d addr top record).1.Sane d ↔
      Orderly now pool d addr top record := by
  have hstamp : ∀ (n : Node) e, n.Sane e →
      Sane e { n with lastWriteTime := record.lastWriteTime } :=
    fun n e hn => hn.congr rfl rfl rfl rfl rfl
  unfold cmpApplyRecord
  simp only
  split
  case isTrue hop =>
    split
    case h_1 hnone => exact iff_of_true h (.of_none (fun _ => rfl) (absurd hop) hnone)
    case h_2 top' p addr' hr =>
      rw [orderly_create_iff hop hr]
      exact h.create_iff hr (fun _ => rfl) fun n e hn => hn.congr rfl rfl rfl rfl rfl
  case isFalse hcreate =>
    split
    case h_1 hnone => exact iff_of_true h (.of_none (fun hop => absurd hop hcreate) (fun _ => rfl) hnone)
    case h_2 top1 p addr1 hr =>
      obtain ⟨n, hn⟩ := resolved_there hr
      simp only [hn]
      have hnsane := h.get? hn
      split
      case isTrue hop =>
        have hlinks := (cmpApplyValues_wf pool record.valueCount record.tail
          (hstamp n _ hnsane).wf).2
        rw [h.modifyAt_iff hn hlinks.name, (hstamp n _ hnsane).cmpApplyValues_iff,
          orderly_set_iff hr hop hn]
      case isFalse hset =>
        split
        case isTrue hop =>
          refine iff_of_true ?_ (.of_other hcreate hset (by rw [hop]; decide))
          split
          case h_1 => exact h
          case h_2 i hi =>
            split
            · exact h
            · obtain ⟨parent, hparent, hat⟩ := parent_of_get? hn hi
              refine (h.modifyAt_iff hparent rfl).mpr ?_
              exact ((h.get? hparent).unlinkChild (List.getElem?_eq_some_iff.mp hat).1).congr
                rfl rfl rfl rfl rfl
        case isFalse hdelete =>
          split
          case isTrue hop =>
            refine iff_of_true ?_ (.of_other hcreate hset (by rw [hop]; decide))
            split
            case h_1 => exact h
            case h_2 name hname =>
              cases hremove : cmpRemoveValue
                  { n with lastWriteTime := record.lastWriteTime } name with
              | none => exact (h.modifyAt_iff hn rfl).mpr (hstamp n _ hnsane)
              | some m =>
                exact (h.modifyAt_iff hn (cmpRemoveValue_links hremove).name).mpr
                  ((hstamp n _ hnsane).cmpRemoveValue hremove)
          case isFalse =>
            split
            case isTrue hop =>
              split
              case h_1 i newName hi hname =>
                split
                case isTrue hempty =>
                  refine iff_of_true h (.of_unnamed hr hop fun _ j name _ hname' => ?_)
                  cases hname.symm.trans hname'
                  exact hempty
                case isFalse hne =>
                  split
                  case isTrue hpool =>
                    exact iff_of_true h (.of_unnamed hr hop fun henough => absurd henough hpool)
                  case isFalse hpool =>
                    obtain ⟨parent, hparent, hat⟩ := parent_of_get? hn hi
                    have hrename : (parent.cmpRenameNode record.lastWriteTime i newName).name =
                        parent.name := by
                      rw [cmpRenameNode, hat]
                    rw [h.modifyAt_iff hparent hrename, (h.get? hparent).cmpRenameNode_iff hat,
                      orderly_rename_iff hr hop (not_not.mp hpool) hi hparent hname hne]
                    constructor
                    · rintro ⟨hvalid, hfind⟩
                      exact ⟨hvalid.length_le, hvalid.no_separator, hfind⟩
                    · rintro ⟨hlength, hsep, hfind⟩
                      exact ⟨⟨hne, hlength, hsep⟩, hfind⟩
              case h_2 hnot =>
                exact iff_of_true h (.of_unnamed hr hop fun _ i newName hi hname =>
                  absurd hname (hnot i newName hi))
            case isFalse hrename => exact iff_of_true h (.of_other hcreate hset hrename)

end

/-! ## What is read -/

/-- The ranges of the buffer, as offset and length, that `CmpReadRecord` reads for the record whose
bytes start at `off`; the last one is the path, which is used in place. -/
def recordReads (off : Nat) (p : List UInt8) : List (Nat × Nat) :=
  if p.length < 24 then []
  else
    let length := field p 0 4
    (off, 4) ::
      if length < 24 ∨ length % 8 ≠ 0 ∨ length > p.length then []
      else
        (off + 8, length - 8) :: (off + 4, 4) ::
          if (kiCrc32 ((p.drop 8).take (length - 8))).toNat ≠ field p 4 4 then []
          else
            (off + 10, 2) :: (off + 12, 2) ::
              if field p 12 2 ≠ 0 ∨ roundUp8 (24 + 2 * field p 10 2) > length then []
              else
                [(off + 8, 1), (off + 9, 1), (off + 14, 2), (off + 16, 8),
                  (off + 24, 2 * field p 10 2 % 65536)]

/-- The ranges `CmpApplyValues` reads of a tail at `off`. -/
def valueReads : Nat → Nat → List UInt8 → List (Nat × Nat)
  | 0, _, _ => []
  | count + 1, off, cursor =>
    if cursor.length < 12 then []
    else
      let nameBytes := 2 * field cursor 0 2
      let dataBytes := field cursor 8 4
      let used := roundUp8 (12 + nameBytes + dataBytes)
      (off, 2) :: (off + 4, 4) :: (off + 8, 4) ::
        if used > cursor.length then []
        else
          (off + 12, nameBytes % 65536) :: (off + 12 + nameBytes, dataBytes) ::
            valueReads count (off + used) (cursor.drop used)

/-- The ranges `CmpReadTailName` reads of a tail at `off`. -/
def tailNameReads (off : Nat) (tail : List UInt8) : List (Nat × Nat) :=
  if tail.length < 4 then []
  else
    let nameBytes := 2 * field tail 0 2
    (off, 2) :: if 4 + nameBytes > tail.length then [] else [(off + 4, nameBytes % 65536)]

/-- The ranges `CmpApplyRecord` may read of the tail of a record, which is at `off`. -/
def tailReads (off : Nat) (record : Record) : List (Nat × Nat) :=
  if record.op = cmpOpSetValues then valueReads record.valueCount off record.tail
  else if record.op = cmpOpDeleteValue ∨ record.op = cmpOpRenameKey then
    tailNameReads off record.tail
  else []

/-- The ranges the loop of `CmpReplayImage` reads of a buffer of `total` bytes. -/
def replayReads (now : UInt64) (pool : Nat → RecordPool) (d total : Nat) :
    Nat → Replayed → List (Nat × Nat)
  | 0, _ => []
  | rounds + 1, r =>
    let off := total - r.rest.length
    match cmpReadRecord r.rest with
    | none => recordReads off r.rest
    | some (record, rest) =>
      recordReads off r.rest ++ tailReads (total - rest.length - record.tail.length) record ++
        match cmpApplyRecord now (pool r.applied) d r.addr r.top record with
        | (top, addr, true) =>
          replayReads now pool d total rounds { top, addr, rest, applied := r.applied + 1 }
        | (_, _, false) => []

/-- The ranges `CmpParseSubtreeInto` reads. -/
def imageReads (now : UInt64) (pool : Nat → RecordPool) (d addr : Nat) (top : Node)
    (buffer : List UInt8) : List (Nat × Nat) :=
  if buffer.length < 16 ∨ buffer.length > cmpHiveMaxBytes then []
  else
    (0, 4) :: (4, 4) ::
      if field buffer 0 4 ≠ 0x32564850 ∨ field buffer 4 4 ≠ 2 ∨ d = 0 ∨ d > cmpHiveMaxDepth then []
      else
        replayReads now pool d buffer.length buffer.length
          { top, addr, rest := buffer.drop 16, applied := 0 }

/-- Every range ends at `bound` at the latest. -/
def Within (bound : Nat) (ranges : List (Nat × Nat)) : Prop := ∀ r ∈ ranges, r.1 + r.2 ≤ bound

section
variable {bound off : Nat} {ranges ranges' : List (Nat × Nat)}

theorem Within.nil : Within bound [] := fun _ hr => (nomatch hr)

theorem Within.cons {r : Nat × Nat} (hr : r.1 + r.2 ≤ bound) (h : Within bound ranges) :
    Within bound (r :: ranges) :=
  forall_mem_cons.mpr ⟨hr, h⟩

theorem Within.append (h : Within bound ranges) (h' : Within bound ranges') :
    Within bound (ranges ++ ranges') :=
  forall_mem_append.mpr ⟨h, h'⟩

theorem recordReads_within (p : List UInt8) (h : off + p.length ≤ bound) :
    Within bound (recordReads off p) := by
  rw [recordReads]
  split
  · exact .nil
  · simp only
    refine .cons (by simp only; omega) ?_
    split
    · exact .nil
    · refine .cons (by simp only; omega) (.cons (by simp only; omega) ?_)
      split
      · exact .nil
      · refine .cons (by simp only; omega) (.cons (by simp only; omega) ?_)
        split
        · exact .nil
        case isFalse hlength _ htail =>
          have hround := le_roundUp8 (24 + 2 * field p 10 2)
          have hmod := Nat.mod_le (2 * field p 10 2) 65536
          refine .cons ?_ (.cons ?_ (.cons ?_ (.cons ?_ (.cons ?_ .nil))))
          all_goals simp only; omega

theorem valueReads_within (count : Nat) (cursor : List UInt8) (h : off + cursor.length ≤ bound) :
    Within bound (valueReads count off cursor) := by
  induction count generalizing off cursor with
  | zero => exact .nil
  | succ count ih =>
    rw [valueReads]
    split
    · exact .nil
    · simp only
      refine .cons (by simp only; omega) (.cons (by simp only; omega)
        (.cons (by simp only; omega) ?_))
      split
      · exact .nil
      case isFalse hused =>
        have hround := le_roundUp8 (12 + 2 * field cursor 0 2 + field cursor 8 4)
        have hmod := Nat.mod_le (2 * field cursor 0 2) 65536
        refine .cons (by simp only; omega) (.cons (by simp only; omega) (ih _ ?_))
        rw [length_drop]
        omega

theorem tailNameReads_within (tail : List UInt8) (h : off + tail.length ≤ bound) :
    Within bound (tailNameReads off tail) := by
  rw [tailNameReads]
  split
  · exact .nil
  · simp only
    refine .cons (by simp only; omega) ?_
    split
    · exact .nil
    · have hmod := Nat.mod_le (2 * field tail 0 2) 65536
      exact .cons (by simp only; omega) .nil

theorem tailReads_within (record : Record) (h : off + record.tail.length ≤ bound) :
    Within bound (tailReads off record) := by
  rw [tailReads]
  split
  · exact valueReads_within _ _ h
  · split
    · exact tailNameReads_within _ h
    · exact .nil

theorem cmpReadRecord_length {p rest : List UInt8} {record : Record}
    (h : cmpReadRecord p = some (record, rest)) :
    rest.length + record.tail.length ≤ p.length := by
  unfold cmpReadRecord at h
  simp only at h
  repeat' split at h
  all_goals cases h
  simp only [length_drop, length_take]
  omega

theorem cmpReadRecord_lt {p rest : List UInt8} {record : Record}
    (h : cmpReadRecord p = some (record, rest)) : rest.length < p.length := by
  unfold cmpReadRecord at h
  simp only at h
  repeat' split at h
  all_goals cases h
  simp only [length_drop]
  omega

/-- The loop has ended when there were as many rounds as bytes. -/
theorem cmpReplayRecords_ends {now : UInt64} {pool : Nat → RecordPool} {d : Nat} (rounds k : Nat)
    (r : Replayed) (h : r.rest.length ≤ rounds) :
    cmpReplayRecords now pool d (rounds + k) r = cmpReplayRecords now pool d rounds r := by
  induction rounds generalizing r with
  | zero =>
    have hnil : r.rest = [] := length_eq_zero_iff.mp (Nat.le_zero.mp h)
    cases k with
    | zero => rfl
    | succ k =>
      simp only [cmpReplayRecords, hnil]
      rfl
  | succ rounds ih =>
    rw [Nat.add_right_comm, cmpReplayRecords, cmpReplayRecords]
    split
    · rfl
    case h_2 record rest hread =>
      have hlt := cmpReadRecord_lt hread
      split
      · exact ih _ (by simp only; omega)
      · rfl

theorem replayReads_within {now : UInt64} {pool : Nat → RecordPool} {d : Nat} (rounds : Nat)
    (r : Replayed) (h : r.rest.length ≤ bound) :
    Within bound (replayReads now pool d bound rounds r) := by
  induction rounds generalizing r with
  | zero => exact .nil
  | succ rounds ih =>
    rw [replayReads]
    have hrecord : Within bound (recordReads (bound - r.rest.length) r.rest) :=
      recordReads_within _ (by omega)
    split
    · exact hrecord
    case h_2 record rest hread =>
      have hlength := cmpReadRecord_length hread
      refine (hrecord.append (tailReads_within _ (by omega))).append ?_
      split
      · exact ih _ (by simp only; omega)
      · exact .nil

theorem imageReads_within (now : UInt64) (pool : Nat → RecordPool) (d addr : Nat) (top : Node)
    (buffer : List UInt8) : Within buffer.length (imageReads now pool d addr top buffer) := by
  rw [imageReads]
  split
  · exact .nil
  · refine .cons (by simp only; omega) (.cons (by simp only; omega) ?_)
    split
    · exact .nil
    · exact replayReads_within _ _ (by simp)

end

/-! ## A whole image -/

/-- The records of some bytes, as far as they can be read, and the bytes after them. -/
def readRecords : Nat → List UInt8 → List Record × List UInt8
  | 0, bytes => ([], bytes)
  | rounds + 1, bytes =>
    match cmpReadRecord bytes with
    | none => ([], bytes)
    | some (record, rest) => (record :: (readRecords rounds rest).1, (readRecords rounds rest).2)

/-- The records that reach the tree, the first of them after `i` others: up to the first that is
refused, with it. -/
def reached (now : UInt64) (pool : Nat → RecordPool) (d : Nat) :
    Nat → Node × Nat → List Record → List Record
  | _, _, [] => []
  | i, state, record :: records =>
    record :: match cmpApplyRecord now (pool i) d state.2 state.1 record with
      | (top, addr, true) => reached now pool d (i + 1) (top, addr) records
      | (_, _, false) => []

/-- The tree and the next address after some records, the first of them after `i` others. -/
def applyAll (now : UInt64) (pool : Nat → RecordPool) (d : Nat) :
    Nat → Node × Nat → List Record → Node × Nat
  | _, state, [] => state
  | i, state, record :: records =>
    let r := cmpApplyRecord now (pool i) d state.2 state.1 record
    applyAll now pool d (i + 1) (r.1, r.2.1) records

def OrderlyRun (now : UInt64) (pool : Nat → RecordPool) (d : Nat) :
    Nat → Node × Nat → List Record → Prop
  | _, _, [] => True
  | i, state, record :: records =>
    Orderly now (pool i) d state.2 state.1 record ∧
      OrderlyRun now pool d (i + 1) (applyAll now pool d i state [record]) records

/-- The header and the depth are such that the records are looked at. -/
def Readable (d : Nat) (buffer : List UInt8) : Prop :=
  16 ≤ buffer.length ∧ buffer.length ≤ cmpHiveMaxBytes ∧ field buffer 0 4 = 0x32564850 ∧
    field buffer 4 4 = 2 ∧ d ≠ 0 ∧ d ≤ cmpHiveMaxDepth

instance (d : Nat) (buffer : List UInt8) : Decidable (Readable d buffer) :=
  inferInstanceAs (Decidable (_ ∧ _ ∧ _ ∧ _ ∧ _ ∧ _))

def imageRecords (now : UInt64) (pool : Nat → RecordPool) (d addr : Nat) (top : Node)
    (buffer : List UInt8) : List Record :=
  if Readable d buffer then
    reached now pool d 0 (top, addr) (readRecords buffer.length (buffer.drop 16)).1
  else []

/-- The records fill the image and all of them reach the tree, the first of them to be applied. -/
structure Complete (now : UInt64) (pool : Nat → RecordPool) (d addr : Nat) (top : Node)
    (buffer : List UInt8) : Prop where
  readable : Readable d buffer
  all_read : (readRecords buffer.length (buffer.drop 16)).2 = []
  all_reached : imageRecords now pool d addr top buffer =
    (readRecords buffer.length (buffer.drop 16)).1
  applied : ∃ record records, imageRecords now pool d addr top buffer = record :: records ∧
    (cmpApplyRecord now (pool 0) d addr top record).2.2 = true

/-- The link flag of the top key after a record: a CREATE_KEY with an empty path sets it. -/
def rootLink (link : Bool) (record : Record) : Bool :=
  if record.op = cmpOpCreateKey ∧ record.path = [] then decide (record.keyFlags &&& 1 ≠ 0)
  else link

structure Empty (top : Node) : Prop where
  deleted : top.deleted = false
  values : top.values = []
  valueCount : top.valueCount = 0
  subkeys : top.subkeys = []
  subkeyCount : top.subkeyCount = 0

/-- What a load may leave of a key: the key as it was, or a sane tree. -/
def LoadedSafely (d : Nat) (top : Node) (result : NtStatus × Node × Nat) : Prop :=
  (result.1 = statusNotRegistryFile ∧ result.2.1.subkeys = [] ∧ result.2.1.values = [] ∧
      result.2.1.isLink = top.isLink) ∨
    (result.1 = statusSuccess ∧ result.2.1.Sane d)

/-- What an image may do: a complete one brings in no name out of order, and of any other the last
record for the key itself leaves the link flag that the key has. -/
structure Harmless (now : UInt64) (pool : Nat → RecordPool) (d addr : Nat) (top : Node)
    (buffer : List UInt8) : Prop where
  names : Complete now pool d addr top buffer →
    OrderlyRun now pool d 0 (top, addr) (imageRecords now pool d addr top buffer)
  link : ¬ Complete now pool d addr top buffer →
    (imageRecords now pool d addr top buffer).foldl rootLink top.isLink = top.isLink

section
variable {now : UInt64} {pool : Nat → RecordPool} {d addr i : Nat} {top n : Node} {p : Pos}
  {state : Node × Nat} {f : Node → Node} {record : Record} {records : List Record}
  {buffer : List UInt8}

theorem applyAll_cons (i : Nat) (state : Node × Nat) :
    applyAll now pool d i state (record :: records) =
      applyAll now pool d (i + 1) (applyAll now pool d i state [record]) records := rfl

theorem OrderlyRun.sane (h : state.1.Sane d) (hrun : OrderlyRun now pool d i state records) :
    (applyAll now pool d i state records).1.Sane d := by
  induction records generalizing i state with
  | nil => exact h
  | cons record records ih =>
    rw [applyAll_cons]
    exact ih (cmpApplyRecord_sane_iff h |>.mpr hrun.1) hrun.2

theorem OrderlyRun.sane_iff (h : state.1.Sane d) (hrun : OrderlyRun now pool d i state records) :
    (applyAll now pool d i state (records ++ [record])).1.Sane d ↔
      OrderlyRun now pool d i state (records ++ [record]) := by
  induction records generalizing i state with
  | nil => exact (cmpApplyRecord_sane_iff h).trans ⟨fun h => ⟨h, trivial⟩, fun h => h.1⟩
  | cons first records ih =>
    rw [cons_append, applyAll_cons, OrderlyRun]
    refine (ih (cmpApplyRecord_sane_iff h |>.mpr hrun.1) hrun.2).trans ?_
    exact ⟨fun h => ⟨hrun.1, h⟩, fun h => h.2⟩

theorem cmpReplayRecords_top (now : UInt64) (pool : Nat → RecordPool) (d rounds : Nat)
    (r : Replayed) : (cmpReplayRecords now pool d rounds r).top =
      (applyAll now pool d r.applied (r.top, r.addr)
        (reached now pool d r.applied (r.top, r.addr) (readRecords rounds r.rest).1)).1 := by
  induction rounds generalizing r with
  | zero => rfl
  | succ rounds ih =>
    rw [cmpReplayRecords, readRecords]
    cases cmpReadRecord r.rest with
    | none => rfl
    | some read =>
      simp only [reached]
      rw [applyAll_cons]
      cases happly : cmpApplyRecord now (pool r.applied) d r.addr r.top read.1 with
      | mk top rest =>
        obtain ⟨addr, accepted⟩ := rest
        have hstep : applyAll now pool d r.applied (r.top, r.addr) [read.1] = (top, addr) := by
          simp only [applyAll, happly]
        rw [hstep]
        cases accepted with
        | true => exact ih _
        | false => rfl

/-- The loop ends with nothing left exactly when the records fill the bytes and are all reached. -/
theorem cmpReplayRecords_rest_iff (rounds : Nat) (r : Replayed) :
    (cmpReplayRecords now pool d rounds r).rest = [] ↔
      (readRecords rounds r.rest).2 = [] ∧
        reached now pool d r.applied (r.top, r.addr) (readRecords rounds r.rest).1 =
          (readRecords rounds r.rest).1 := by
  induction rounds generalizing r with
  | zero => simp [cmpReplayRecords, readRecords, reached]
  | succ rounds ih =>
    rw [cmpReplayRecords, readRecords]
    cases cmpReadRecord r.rest with
    | none => simp [reached]
    | some read =>
      simp only [reached, List.cons.injEq, true_and]
      cases happly : cmpApplyRecord now (pool r.applied) d r.addr r.top read.1 with
      | mk top rest =>
        obtain ⟨addr, accepted⟩ := rest
        cases accepted with
        | true => exact ih _
        | false =>
          simp only
          constructor
          · intro hnil
            rw [hnil]
            cases rounds with
            | zero => exact ⟨rfl, rfl⟩
            | succ rounds => exact ⟨rfl, rfl⟩
          · rintro ⟨hrest, hreached⟩
            cases rounds with
            | zero => exact hrest
            | succ rounds =>
              rw [readRecords] at hrest hreached
              cases hread : cmpReadRecord read.2 with
              | none =>
                rw [hread] at hrest
                exact hrest
              | some next =>
                rw [hread] at hreached
                cases hreached

theorem le_applied (now : UInt64) (pool : Nat → RecordPool) (d rounds : Nat) (r : Replayed) :
    r.applied ≤ (cmpReplayRecords now pool d rounds r).applied := by
  induction rounds generalizing r with
  | zero => exact le_refl _
  | succ rounds ih =>
    rw [cmpReplayRecords]
    split
    · exact le_refl _
    · split
      · refine (Nat.le_succ _).trans ?_
        exact ih ⟨_, _, _, r.applied + 1⟩
      · exact le_refl _

theorem cmpReplayRecords_applied_iff (rounds : Nat) (r : Replayed) (h : r.applied = 0) :
    (cmpReplayRecords now pool d rounds r).applied ≠ 0 ↔
      ∃ record records, reached now pool d r.applied (r.top, r.addr)
        (readRecords rounds r.rest).1 = record :: records ∧
          (cmpApplyRecord now (pool r.applied) d r.addr r.top record).2.2 = true := by
  cases rounds with
  | zero => simp [cmpReplayRecords, readRecords, reached, h]
  | succ rounds =>
    rw [cmpReplayRecords, readRecords]
    cases cmpReadRecord r.rest with
    | none => simp [reached, h]
    | some read =>
      simp only [reached]
      cases happly : cmpApplyRecord now (pool r.applied) d r.addr r.top read.1 with
      | mk top rest =>
        obtain ⟨addr, accepted⟩ := rest
        cases accepted with
        | true =>
          refine iff_of_true ?_ ⟨read.1, _, rfl, by rw [happly]⟩
          have := le_applied now pool d rounds ⟨top, addr, read.2, r.applied + 1⟩
          simp only at this ⊢
          omega
        | false =>
          refine iff_of_false (by simp [h]) ?_
          rintro ⟨record, records, heq, haccepted⟩
          cases heq
          rw [happly] at haccepted
          cases haccepted

theorem isLink_modifyAt (h : top.get? p = some n) (hf : (f n).isLink = n.isLink) :
    (top.modifyAt f p).isLink = top.isLink := by
  cases p with
  | nil =>
    cases h
    exact hf
  | cons i p => rfl

theorem cmpApplyValues_isLink (pool : RecordPool) (count : Nat) (cursor : List UInt8) (n : Node) :
    (cmpApplyValues pool count cursor n).1.isLink = n.isLink := by
  induction count generalizing pool cursor n with
  | zero => rfl
  | succ count ih =>
    rw [cmpApplyValues]
    split
    · rfl
    · simp only
      split
      · rfl
      · split
        · rfl
        · rw [ih, cmpSetValue]
          split <;> rfl

/-- Only a CREATE_KEY with an empty path touches the link flag of the top key. -/
theorem cmpApplyRecord_isLink {pool : RecordPool} :
    (cmpApplyRecord now pool d addr top record).1.isLink = rootLink top.isLink record := by
  unfold cmpApplyRecord rootLink
  simp only
  split
  case isTrue hop =>
    split
    case h_1 hnone =>
      have hpath : record.path ≠ [] := by
        intro hpath
        rw [hpath] at hnone
        cases hnone
      rw [if_neg fun h => hpath h.2]
    case h_2 top' p addr' hr =>
      obtain ⟨n, hn⟩ := resolved_get? hr
      obtain ⟨hpath, rfl, rfl⟩ | ⟨hpath, q, node, -, hnode, ⟨i, -, rfl, rfl⟩ |
          ⟨-, -, -, rfl, rfl⟩⟩ := cmpResolveRecordKey_cases hr
      · rw [if_pos ⟨hop, hpath⟩]
        rfl
      · rw [if_neg fun h => hpath h.2]
        cases q <;> rfl
      · rw [if_neg fun h => hpath h.2]
        cases q with
        | nil =>
          cases hnode
          rfl
        | cons => rfl
  case isFalse hop =>
    rw [if_neg fun h => hop h.1]
    split
    case h_1 => rfl
    case h_2 p _ hr =>
      split
      case h_1 => rfl
      case h_2 node hnode =>
        split
        · refine isLink_modifyAt hnode ?_
          exact cmpApplyValues_isLink _ _ _ _
        split
        · split
          · rfl
          case h_2 i hi =>
            split
            · rfl
            · obtain ⟨parent, hparent, -⟩ := parent_of_get? hnode hi
              exact isLink_modifyAt hparent rfl
        split
        · split
          · rfl
          case h_2 name hname =>
            refine isLink_modifyAt hnode ?_
            rw [cmpRemoveValue]
            split <;> rfl
        split
        · split
          case h_1 i newName hi hname =>
            split
            · rfl
            · split
              · rfl
              · obtain ⟨parent, hparent, hat⟩ := parent_of_get? hnode hi
                refine isLink_modifyAt hparent ?_
                rw [cmpRenameNode, hat]
          · rfl
        · rfl

theorem applyAll_isLink (now : UInt64) (pool : Nat → RecordPool) (d i : Nat) (state : Node × Nat)
    (records : List Record) :
    (applyAll now pool d i state records).1.isLink = records.foldl rootLink state.1.isLink := by
  induction records generalizing i state with
  | nil => rfl
  | cons record records ih =>
    rw [applyAll_cons, ih, foldl_cons]
    have hlink : (applyAll now pool d i state [record]).1.isLink =
        rootLink state.1.isLink record := cmpApplyRecord_isLink
    rw [hlink]

theorem cmpParseSubtreeInto_eq (now : UInt64) (pool : Nat → RecordPool) (d addr : Nat)
    (top : Node) (buffer : List UInt8) :
    (Complete now pool d addr top buffer ∧
      (cmpParseSubtreeInto now pool d addr top buffer).1 = statusSuccess ∧
      (cmpParseSubtreeInto now pool d addr top buffer).2.1 =
        (applyAll now pool d 0 (top, addr) (imageRecords now pool d addr top buffer)).1) ∨
    (¬ Complete now pool d addr top buffer ∧
      (cmpParseSubtreeInto now pool d addr top buffer).1 = statusNotRegistryFile ∧
      ((Readable d buffer ∧ (cmpParseSubtreeInto now pool d addr top buffer).2.1 =
          cmpFreeSubtreeContents
            (applyAll now pool d 0 (top, addr) (imageRecords now pool d addr top buffer)).1) ∨
        (imageRecords now pool d addr top buffer = [] ∧
          (cmpParseSubtreeInto now pool d addr top buffer).2.1 = top))) := by
  by_cases hread : Readable d buffer
  · obtain ⟨h16, hmax, hmagic, hversion, hd, hdepth⟩ := id hread
    have hrecords : imageRecords now pool d addr top buffer = reached now pool d 0 (top, addr)
        (readRecords buffer.length (buffer.drop 16)).1 := if_pos hread
    have htop := cmpReplayRecords_top now pool d buffer.length ⟨top, addr, buffer.drop 16, 0⟩
    have hparse : cmpParseSubtreeInto now pool d addr top buffer =
        let r := cmpReplayRecords now pool d buffer.length ⟨top, addr, buffer.drop 16, 0⟩
        if r.rest = [] ∧ r.applied ≠ 0 then (statusSuccess, r.top, r.addr)
        else (statusNotRegistryFile, cmpFreeSubtreeContents r.top, r.addr) := by
      rw [cmpParseSubtreeInto, if_neg (by omega), if_neg (by omega)]
    have hcomplete :
        (cmpReplayRecords now pool d buffer.length ⟨top, addr, buffer.drop 16, 0⟩).rest = [] ∧
          (cmpReplayRecords now pool d buffer.length
            ⟨top, addr, buffer.drop 16, 0⟩).applied ≠ 0 ↔
        Complete now pool d addr top buffer := by
      rw [cmpReplayRecords_rest_iff, cmpReplayRecords_applied_iff _ _ rfl]
      constructor
      · rintro ⟨⟨hrest, hall⟩, happlied⟩
        exact ⟨hread, hrest, hrecords.trans hall, by rw [hrecords]; exact happlied⟩
      · rintro ⟨-, hrest, hall, happlied⟩
        refine ⟨⟨hrest, hrecords.symm.trans hall⟩, ?_⟩
        rw [hrecords] at happlied
        exact happlied
    rw [hparse, hrecords]
    simp only
    by_cases hdone : Complete now pool d addr top buffer
    · rw [if_pos (hcomplete.mpr hdone)]
      exact .inl ⟨hdone, rfl, htop⟩
    · rw [if_neg fun h => hdone (hcomplete.mp h)]
      exact .inr ⟨hdone, rfl, .inl ⟨hread, congrArg cmpFreeSubtreeContents htop⟩⟩
  · have hrecords : imageRecords now pool d addr top buffer = [] := if_neg hread
    have hparse : cmpParseSubtreeInto now pool d addr top buffer =
        (statusNotRegistryFile, top, addr) := by
      rw [cmpParseSubtreeInto]
      split
      · rfl
      · split
        · rfl
        · exact absurd ⟨by omega, by omega, by omega, by omega, by omega, by omega⟩ hread
    rw [hparse]
    exact .inr ⟨fun h => hread h.readable, rfl, .inr ⟨hrecords, rfl⟩⟩

theorem Empty.sane (h : top.Empty) (hd : d ≤ cmpHiveMaxDepth) : top.Sane d := by
  refine ⟨.mk hd h.deleted ?_ ?_ ?_ ?_ ?_ ?_, .mk ?_ ?_⟩
  all_goals simp [h.values, h.valueCount, h.subkeys, h.subkeyCount]

/-- **Loading any image**: nothing outside of it is read, more rounds of the loop would change
nothing, and what is left of the key is the key as it was or a sane tree whenever the image is
harmless; and only then, as long as the records of a complete image but the last bring in no name
out of order. -/
theorem image_loads_safely (now : UInt64) (pool : Nat → RecordPool) (d addr : Nat) {top : Node}
    (hempty : top.Empty) (buffer : List UInt8) :
    Within buffer.length (imageReads now pool d addr top buffer) ∧
    (∀ rounds, buffer.length ≤ rounds →
      cmpReplayRecords now pool d rounds ⟨top, addr, buffer.drop 16, 0⟩ =
        cmpReplayRecords now pool d buffer.length ⟨top, addr, buffer.drop 16, 0⟩) ∧
    (Harmless now pool d addr top buffer →
      LoadedSafely d top (cmpParseSubtreeInto now pool d addr top buffer)) ∧
    (¬ Complete now pool d addr top buffer ∨
        OrderlyRun now pool d 0 (top, addr)
          (imageRecords now pool d addr top buffer).dropLast →
      (LoadedSafely d top (cmpParseSubtreeInto now pool d addr top buffer) ↔
        Harmless now pool d addr top buffer)) := by
  refine ⟨imageReads_within now pool d addr top buffer, fun rounds hrounds => ?_, ?_⟩
  · obtain ⟨k, rfl⟩ := Nat.exists_eq_add_of_le hrounds
    exact cmpReplayRecords_ends _ k _ (by simp)
  have hstatus : statusSuccess ≠ statusNotRegistryFile := by decide
  obtain ⟨hdone, hok, htop⟩ | ⟨hdone, hrefused, hleft⟩ :=
    cmpParseSubtreeInto_eq now pool d addr top buffer
  · have hsane : top.Sane d := hempty.sane hdone.readable.2.2.2.2.2
    have hharmless : OrderlyRun now pool d 0 (top, addr)
          (imageRecords now pool d addr top buffer) ↔ Harmless now pool d addr top buffer :=
      ⟨fun h => ⟨fun _ => h, fun hnot => absurd hdone hnot⟩, fun h => h.names hdone⟩
    have hsafe : LoadedSafely d top (cmpParseSubtreeInto now pool d addr top buffer) ↔
        (applyAll now pool d 0 (top, addr)
          (imageRecords now pool d addr top buffer)).1.Sane d := by
      rw [LoadedSafely, hok, htop]
      exact ⟨fun h => h.elim (fun h => absurd h.1 hstatus) fun h => h.2, fun h => .inr ⟨rfl, h⟩⟩
    rw [hsafe, ← hharmless]
    refine ⟨fun hrun => hrun.sane hsane, fun hbefore => ?_⟩
    have hbefore := hbefore.resolve_left fun hnot => hnot hdone
    obtain ⟨record, records, hrecords, -⟩ := hdone.applied
    have hlast := dropLast_append_getLast (l := imageRecords now pool d addr top buffer)
      (by rw [hrecords]; exact cons_ne_nil _ _)
    rw [← hlast]
    exact hbefore.sane_iff hsane
  · have hharmless : (imageRecords now pool d addr top buffer).foldl rootLink top.isLink =
        top.isLink ↔ Harmless now pool d addr top buffer :=
      ⟨fun h => ⟨fun hdone' => absurd hdone' hdone, fun _ => h⟩, fun h => h.link hdone⟩
    have hsafe : LoadedSafely d top (cmpParseSubtreeInto now pool d addr top buffer) ↔
        (imageRecords now pool d addr top buffer).foldl rootLink top.isLink = top.isLink := by
      rw [LoadedSafely, hrefused]
      rcases hleft with ⟨-, htop⟩ | ⟨hnone, htop⟩
      · rw [htop, ← applyAll_isLink now pool d 0 (top, addr)]
        exact ⟨fun h => h.elim (fun h => h.2.2.2) fun h => absurd h.1.symm hstatus,
          fun h => .inl ⟨rfl, rfl, rfl, h⟩⟩
      · rw [htop, hnone]
        exact iff_of_true (.inl ⟨rfl, hempty.subkeys, hempty.values, rfl⟩) rfl
    rw [hsafe, hharmless]
    exact ⟨id, fun _ => .rfl⟩

theorem newNode_empty (now : UInt64) (addr : Nat) (name : WStr) : (newNode now addr name).Empty :=
  ⟨rfl, rfl, rfl, rfl, rfl⟩

/-- A CREATE_KEY for the path `B`. -/
def createB : List UInt8 := encodeRecord cmpOpCreateKey 0 [0x42] 7 0 []

/-- The pool that lasts for `n` records. -/
def poolFor (n : Nat) : Nat → RecordPool := fun i => if i < n then .enough else .values 0

/-- A log of two CREATE_KEYs. There is no pool for the second, which ends the replay: the image
counts as complete, and the key has the subkey of the first. -/
theorem image_loads_safely_create :
    LoadedSafely 1 (newNode 0 0 []) (cmpParseSubtreeInto 0 (poolFor 1) 1 1 (newNode 0 0 [])
      (hiveHeader ++ createA 0 ++ createB)) ∧
    (cmpParseSubtreeInto 0 (poolFor 1) 1 1 (newNode 0 0 [])
      (hiveHeader ++ createA 0 ++ createB)).2.1.subkeys.map name = [[0x41]] := by
  refine ⟨(image_loads_safely 0 (poolFor 1) 1 1 (newNode_empty 0 0 [])
    (hiveHeader ++ createA 0 ++ createB)).2.2.1 ?_, by decide +kernel⟩
  have hrecords : imageRecords 0 (poolFor 1) 1 1 (newNode 0 0 [])
      (hiveHeader ++ createA 0 ++ createB) =
      [{ op := cmpOpCreateKey, keyFlags := 0, valueCount := 0, lastWriteTime := 7, path := [0x41],
         tail := [] },
       { op := cmpOpCreateKey, keyFlags := 0, valueCount := 0, lastWriteTime := 7, path := [0x42],
         tail := [] }] := by decide +kernel
  constructor
  · intro _
    rw [hrecords]
    refine ⟨⟨fun _ _ _ => by decide, fun hop => ?_, fun hop => ?_⟩,
      ⟨fun _ _ _ => by decide, fun hop => ?_, fun hop => ?_⟩, trivial⟩
    all_goals exact absurd hop (by decide)
  · intro _
    rw [hrecords]
    rfl

/-- A RENAME_KEY of the key `A` to a separator. -/
def renameA : List UInt8 :=
  encodeRecord cmpOpRenameKey 0 [0x41] 7 0 (encodeTailName [backslash])

/-- An image that is taken, with a key whose name is a separator. -/
theorem image_with_separator_taken :
    (cmpParseSubtreeInto 0 (fun _ => .enough) 1 1 (newNode 0 0 [])
      (hiveHeader ++ createA 0 ++ renameA)).1 = statusSuccess ∧
    ¬ LoadedSafely 1 (newNode 0 0 []) (cmpParseSubtreeInto 0 (fun _ => .enough) 1 1
      (newNode 0 0 []) (hiveHeader ++ createA 0 ++ renameA)) := by
  have hok : (cmpParseSubtreeInto 0 (fun _ => .enough) 1 1 (newNode 0 0 [])
      (hiveHeader ++ createA 0 ++ renameA)).1 = statusSuccess := by decide +kernel
  have hnames : (cmpParseSubtreeInto 0 (fun _ => .enough) 1 1 (newNode 0 0 [])
      (hiveHeader ++ createA 0 ++ renameA)).2.1.subkeys.map name = [[backslash]] := by
    decide +kernel
  refine ⟨hok, fun hsafe => ?_⟩
  rcases hsafe with ⟨hrefused, -⟩ | ⟨-, hsane⟩
  · rw [hok] at hrefused
    exact absurd hrefused (by decide)
  · obtain ⟨c, hc, hname⟩ := List.mem_map.mp (hnames ▸ mem_singleton.mpr rfl)
    have hvalid := hsane.wf.names_valid c hc
    rw [hname] at hvalid
    exact hvalid.no_separator (mem_singleton.mpr rfl)

end

end Node

end Proskrnl.Cm
