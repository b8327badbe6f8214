import Proskrnl.Cm.NodeTree

/-!
# What the parse of a saved image builds

An image that `NtSaveKey` wrote holds CREATE_KEY and SET_VALUES records only, so its replay never
meets a rename onto a sibling's name. Record by record the tree stays well formed and gains nodes at
fresh addresses, with no bodies on them.
-/

namespace Proskrnl.Cm
open Bytes ListUpdate List

/-- Subkeys that a snapshot keeps have valid names, through at most `n` levels. -/
inductive Key.Named : Nat → Key → Prop
  | mk {n : Nat} {k : Key} : (∀ c ∈ k.subkeys, ValidName c.name) →
    (∀ c ∈ k.subkeys, c.isVolatile = false → Key.Named n c) → Key.Named (n + 1) k

/-- A record that creates a key or sets values, at a path of valid names. -/
structure Entry.Plain (e : Entry) : Prop where
  op : e.op = cmpOpCreateKey ∨ e.op = cmpOpSetValues
  names : ∀ m ∈ e.names, ValidName m

variable {names : List WStr}

theorem subkeyEntries_mem {e : Entry} {subkeys : List Key}
    (he : e ∈ subkeyEntries names subkeys) : ∃ c ∈ subkeys, c.isVolatile = false ∧
      e ∈ createEntry (names ++ [c.name]) c :: contentEntries (names ++ [c.name]) c := by
  induction subkeys with
  | nil => cases he
  | cons c rest ih =>
    rw [subkeyEntries] at he
    rcases mem_append.mp he with he | he
    · split at he
      · cases he
      · exact ⟨c, mem_cons_self, by simpa using ‹¬ c.isVolatile = true›, he⟩
    · obtain ⟨x, hx, h⟩ := ih he
      exact ⟨x, mem_cons_of_mem _ hx, h⟩

theorem valueEntries_op {stamp : UInt64} {rounds : Nat} {values : List Value}
    {e : Entry} (he : e ∈ valueEntries names stamp rounds values) : e.op = cmpOpSetValues := by
  induction rounds generalizing values with
  | zero => cases he
  | succ rounds ih =>
    cases values with
    | nil => cases he
    | cons v values =>
      rcases mem_cons.mp he with rfl | he
      · rfl
      · exact ih he

/-- Every record of a key's content is plain, and its path goes through at most as many components
as the key has levels. -/
theorem contentEntries_plain (k : Key) : ∀ {n : Nat} {names : List WStr}, k.Named n →
    (∀ m ∈ names, ValidName m) → ∀ e ∈ contentEntries names k,
      e.Plain ∧ e.names.length + 1 ≤ names.length + n ∧ e.valueCount ≤ cmpValuesPerRecord := by
  induction k using Key.induct with
  | h k ih =>
    intro n names hnamed hnames e he
    cases hnamed with
    | @mk n _ hvalid hsub =>
      rw [contentEntries_eq] at he
      rcases mem_append.mp he with he | he
      · obtain ⟨h1, h2⟩ := valueEntries_mem he
        refine ⟨⟨.inr (valueEntries_op he), ?_⟩, ?_, h2⟩
        · rw [h1]
          exact hnames
        · rw [h1]
          omega
      · obtain ⟨c, hc, hvol, he⟩ := subkeyEntries_mem he
        have hnames' : ∀ m ∈ names ++ [c.name], ValidName m := by
          intro m hm
          rcases mem_append.mp hm with hm | hm
          · exact hnames m hm
          · rw [mem_singleton.mp hm]
            exact hvalid c hc
        have hcnamed := hsub c hc hvol
        rcases mem_cons.mp he with rfl | he
        · have hpos : 1 ≤ n := by
            cases hcnamed
            omega
          refine ⟨⟨.inl rfl, hnames'⟩, ?_, Nat.zero_le _⟩
          simp only [createEntry, length_append, length_singleton]
          omega
        · have := ih c hc hcnamed hnames' e he
          simp only [length_append, length_singleton] at this
          exact ⟨this.1, by omega, this.2.2⟩

/-- An image as `NtSaveKey` writes it, of a key within the depth cap. -/
structure Saved (image : List UInt8) : Prop where
  key : ∃ k n, k.Named n ∧ n ≤ cmpHiveMaxDepth ∧ image = snapshot k
  length_le : image.length ≤ cmpHiveMaxBytes

theorem Saved.entries {image : List UInt8} (h : Saved image) :
    ∃ es : List Entry, image = hiveHeader ++ es.flatMap Entry.encode ∧
      ∀ e ∈ es, e.Fits ∧ e.Plain := by
  obtain ⟨k, n, hnamed, hn, rfl⟩ := h.key
  refine ⟨snapshotEntries k, rfl, fun e he => ?_⟩
  have hcap := h.length_le
  have hlen : e.encode.length ≤ (snapshot k).length := by
    obtain ⟨a, b, hab⟩ := append_of_mem he
    rw [snapshot, hab]
    simp only [flatMap_append, flatMap_cons, length_append]
    omega
  have hlt : e.encode.length < 2 ^ 32 := by
    simp only [cmpHiveMaxBytes] at hcap
    omega
  rcases mem_cons.mp he with rfl | he
  · exact ⟨⟨by simp [createEntry, cmpBuildPath], by simp [createEntry], hlt⟩, .inl rfl,
      by simp [createEntry]⟩
  · obtain ⟨hplain, hnames, hcount⟩ :=
      @contentEntries_plain k n [] hnamed (by simp) e he
    have hpath := length_cmpBuildPath_le e.names fun m hm => (hplain.names m hm).length_le
    simp only [length_nil, cmpHiveMaxDepth, cmpValuesPerRecord] at hnames hn hcount
    exact ⟨⟨by omega, by omega, hlt⟩, hplain⟩

theorem pathLeaf_valid (hnames : ∀ m ∈ names, ValidName m)
    (hne : cmpBuildPath names ≠ []) : ValidName (pathLeaf (cmpBuildPath names)) := by
  induction names using List.reverseRecOn with
  | nil => exact absurd rfl hne
  | append_singleton names name _ =>
    have hname := hnames name (by simp)
    have hinit : ∀ m ∈ names, ValidName m := fun m hm => hnames m (by simp [hm])
    rw [cmpBuildPath_concat hname hinit]
    split
    · rw [pathLeaf_of_no_separator hname.no_separator]
      exact hname
    · rw [pathLeaf_append _ hname.no_separator]
      exact hname

namespace Node

theorem Wf.named (n : Node) : ∀ {d : Nat}, n.Wf d → n.key.Named (cmpHiveMaxDepth + 1 - d) := by
  induction n using Node.induct with
  | h n ih =>
    intro d h
    have hd := h.depth_le
    obtain ⟨m, hm⟩ : ∃ m, cmpHiveMaxDepth + 1 - d = m + 1 := ⟨cmpHiveMaxDepth - d, by omega⟩
    rw [hm]
    constructor
    · intro c hc
      rw [key_subkeys] at hc
      obtain ⟨x, hx, rfl⟩ := List.mem_map.mp hc
      rw [key_name]
      exact h.names_valid x hx
    · intro c hc _
      rw [key_subkeys] at hc
      obtain ⟨x, hx, rfl⟩ := List.mem_map.mp hc
      have hx' := ih x hx (h.subkeys x hx)
      have heq : cmpHiveMaxDepth + 1 - (d + 1) = m := by omega
      rw [heq] at hx'
      exact hx'

/-- Nodes without bodies at addresses from `lo` on, below `hi`. -/
structure Fresh (lo hi : Nat) (l : List (Nat × Nat)) : Prop where
  nodup : (l.map Prod.fst).Nodup
  mem : ∀ x ∈ l, lo ≤ x.1 ∧ x.1 < hi ∧ x.2 = 0

structure Grown (d : Nat) (top0 : Node) (addr0 : Nat) (top : Node) (addr : Nat) : Prop where
  wf : top.Wf d
  addr_eq : top.addr = top0.addr
  name_eq : top.name = top0.name
  bodyCount_eq : top.bodyCount = top0.bodyCount
  le : addr0 ≤ addr
  heads : ∃ l, Fresh addr0 addr l ∧ top.heads.Perm (top0.heads ++ l)

section
variable {d addr0 addr addr' : Nat} {top0 top top' n n' : Node} {p : Pos} {f : Node → Node}

theorem get?_modifyAt (h : top.get? p = some n) : (top.modifyAt f p).get? p = some (f n) := by
  induction p generalizing top with
  | nil =>
    cases h
    rfl
  | cons i p ih =>
    rw [get?] at h
    rw [modifyAt, get?, getElem?_modify_eq]
    cases hc : top.subkeys[i]? with
    | none =>
      rw [hc] at h
      cases h
    | some c =>
      rw [hc] at h
      exact ih h

theorem addr_modifyAt (h : top.get? p = some n) (hf : (f n).addr = n.addr) :
    (top.modifyAt f p).addr = top.addr := by
  cases p with
  | nil =>
    cases h
    exact hf
  | cons i p => rfl

theorem bodyCount_modifyAt (h : top.get? p = some n) (hf : (f n).bodyCount = n.bodyCount) :
    (top.modifyAt f p).bodyCount = top.bodyCount := by
  cases p with
  | nil =>
    cases h
    exact hf
  | cons i p => rfl

theorem Grown.refl (h : top.Wf d) : Grown d top addr top addr where
  wf := h
  addr_eq := rfl
  name_eq := rfl
  bodyCount_eq := rfl
  le := le_refl _
  heads := ⟨[], ⟨nodup_nil, by simp⟩, by rw [append_nil]⟩

theorem Grown.modifyAt (h : Grown d top0 addr0 top addr) (hp : top.get? p = some n)
    (hlinks : SameLinks n (f n)) (hwf : (f n).Wf (d + p.length)) :
    Grown d top0 addr0 (top.modifyAt f p) addr where
  wf := h.wf.modifyAt hp hlinks.name hwf
  addr_eq := (addr_modifyAt hp hlinks.addr).trans h.addr_eq
  name_eq := (name_modifyAt hp hlinks.name).trans h.name_eq
  bodyCount_eq := (bodyCount_modifyAt hp hlinks.bodyCount).trans h.bodyCount_eq
  le := h.le
  heads := by
    obtain ⟨l, hl, hheads⟩ := h.heads
    obtain ⟨rest, hrest, hmod⟩ := exists_heads hp
    refine ⟨l, hl, (hmod f).trans ?_⟩
    rw [hlinks.heads]
    exact hrest.symm.trans hheads

variable {now : UInt64} {pool : RecordPool}

theorem Grown.allocate {leaf : WStr} (h : Grown d top0 addr0 top addr)
    (hp : top.get? p = some n) (hname : ValidName leaf) (hfind : n.cmpFindSubkey leaf = none)
    (hn : cmpAllocateNode now addr (d + p.length) n leaf = some n') :
    Grown d top0 addr0 (top.modifyAt (fun _ => n') p) (addr + 1) := by
  rw [cmpAllocateNode] at hn
  split at hn
  · cases hn
  rename_i hdepth
  cases hn
  have hchild : (newNode now addr leaf).Wf (d + p.length + 1) :=
    .mk (by omega) rfl .nil rfl .nil rfl (by simp [newNode]) (by simp [newNode])
  have hnwf := h.wf.get? hp
  constructor
  · exact h.wf.modifyAt hp rfl (hnwf.linkChild hchild hname hfind)
  · exact (addr_modifyAt hp rfl).trans h.addr_eq
  · exact (name_modifyAt hp rfl).trans h.name_eq
  · exact (bodyCount_modifyAt hp rfl).trans h.bodyCount_eq
  · exact Nat.le_succ_of_le h.le
  · obtain ⟨l, hl, hheads⟩ := h.heads
    obtain ⟨rest, hrest, hmod⟩ := exists_heads hp
    have hnew : (newNode now addr leaf).heads = [(addr, 0)] := by
      rw [heads_eq]
      rfl
    refine ⟨(addr, 0) :: l, ⟨?_, ?_⟩, ?_⟩
    · rw [map_cons, nodup_cons]
      refine ⟨fun hmem => ?_, hl.nodup⟩
      obtain ⟨x, hx, hxa⟩ := List.mem_map.mp hmem
      exact absurd (hl.mem x hx).2.1 (by omega)
    · intro x hx
      rcases mem_cons.mp hx with rfl | hx
      · exact ⟨h.le, Nat.lt_succ_self _, rfl⟩
      · obtain ⟨h1, h2, h3⟩ := hl.mem x hx
        exact ⟨h1, Nat.lt_succ_of_lt h2, h3⟩
    · refine (hmod _).trans ?_
      refine ((heads_linkChild n _).append_right rest).trans ?_
      rw [hnew, append_assoc]
      refine List.Perm.trans ?_ perm_middle.symm
      exact (hrest.symm.trans hheads).cons _

theorem Grown.resolve {path : WStr} {create : Bool}
    (h : Grown d top0 addr0 top addr) (hleaf : path ≠ [] → ValidName (pathLeaf path))
    (hr : cmpResolveRecordKey now pool d addr top path create = some (top', p, addr')) :
    Grown d top0 addr0 top' addr' ∧ (top'.get? p).isSome := by
  rw [cmpResolveRecordKey] at hr
  split at hr
  · cases hr
    exact ⟨h, rfl⟩
  rename_i hne
  have hleaf := hleaf hne
  simp only at hr
  split at hr
  · cases hr
  rename_i q _
  rw [if_neg hleaf.ne_nil] at hr
  split at hr
  · cases hr
  rename_i node hnode
  split at hr
  · rename_i i hi
    cases hr
    refine ⟨h, ?_⟩
    rw [get?_concat hnode, isSome_getElem?]
    exact (findIdx?_eq_some_iff_getElem.mp hi).1
  · rename_i hfind
    split at hr
    · split at hr
      · rename_i node' halloc
        cases hr
        refine ⟨h.allocate hnode hleaf hfind halloc, ?_⟩
        rw [get?_concat (get?_modifyAt hnode), isSome_getElem?]
        rw [cmpAllocateNode] at halloc
        split at halloc
        · cases halloc
        · cases halloc
          rw [linkChild, cmpLinkSubkeySorted, orderedInsert_length]
          exact Nat.lt_succ_of_le findIdx_le_length
      · cases hr
    · cases hr

theorem cmpApplyValues_wf (pool : RecordPool) (count : Nat) (cursor : List UInt8) (h : n.Wf d) :
    (cmpApplyValues pool count cursor n).1.Wf d ∧
      SameLinks n (cmpApplyValues pool count cursor n).1 := by
  induction count generalizing pool cursor n with
  | zero => exact ⟨h, rfl, rfl, rfl, rfl⟩
  | succ count ih =>
    rw [cmpApplyValues]
    split
    · exact ⟨h, rfl, rfl, rfl, rfl⟩
    · simp only
      split
      · exact ⟨h, rfl, rfl, rfl, rfl⟩
      · split
        · exact ⟨h, rfl, rfl, rfl, rfl⟩
        · have hset := cmpSetValue_links n
            (toUnits ((cursor.drop 12).take (2 * field cursor 0 2 % 65536)))
            (UInt32.ofNat (field cursor 4 4))
            ((cursor.drop (12 + 2 * field cursor 0 2)).take (field cursor 8 4))
          obtain ⟨hwf, hlinks⟩ := ih pool.afterValue (cursor.drop (roundUp8 (12 +
            2 * field cursor 0 2 + field cursor 8 4))) (h.cmpSetValue)
          exact ⟨hwf, hlinks.addr.trans hset.addr, hlinks.name.trans hset.name,
            hlinks.bodyCount.trans hset.bodyCount, hlinks.subkeys.trans hset.subkeys⟩

theorem Grown.applyRecord {record : Record} (h : Grown d top0 addr0 top addr)
    (hop : record.op = cmpOpCreateKey ∨ record.op = cmpOpSetValues)
    (hleaf : record.path ≠ [] → ValidName (pathLeaf record.path)) :
    Grown d top0 addr0 (cmpApplyRecord now pool d addr top record).1
      (cmpApplyRecord now pool d addr top record).2.1 := by
  rw [cmpApplyRecord]
  simp only
  split
  · split
    · exact h
    · rename_i top' p addr' hr
      obtain ⟨hgrown, hsome⟩ := h.resolve hleaf hr
      obtain ⟨node, hnode⟩ := Option.isSome_iff_exists.mp hsome
      exact hgrown.modifyAt hnode ⟨rfl, rfl, rfl, rfl⟩
        ((hgrown.wf.get? hnode).congr rfl rfl rfl rfl rfl)
  · rename_i hcreate
    have hset := hop.resolve_left hcreate
    split
    · exact h
    · rename_i _ p _ _
      split
      · exact h
      · rename_i node hnode
        rw [if_pos hset]
        have hstamped : Wf (d + p.length) { node with lastWriteTime := record.lastWriteTime } :=
          (h.wf.get? hnode).congr rfl rfl rfl rfl rfl
        obtain ⟨hwf, hlinks⟩ := cmpApplyValues_wf pool record.valueCount record.tail hstamped
        exact h.modifyAt hnode ⟨hlinks.addr, hlinks.name, hlinks.bodyCount, hlinks.subkeys⟩ hwf

theorem Grown.replay (pool : Nat → RecordPool) (rounds : Nat) {es : List Entry}
    (hes : ∀ e ∈ es, e.Fits ∧ e.Plain) {r : Replayed} (h : Grown d top0 addr0 r.top r.addr)
    (hrest : r.rest = es.flatMap Entry.encode) :
    Grown d top0 addr0 (cmpReplayRecords now pool d rounds r).top
      (cmpReplayRecords now pool d rounds r).addr := by
  induction rounds generalizing r es with
  | zero => exact h
  | succ rounds ih =>
    rw [cmpReplayRecords, hrest]
    cases es with
    | nil => exact h
    | cons e es =>
      obtain ⟨hfits, hplain⟩ := hes e mem_cons_self
      rw [flatMap_cons, e.cmpReadRecord_encode hfits]
      have happly := @Grown.applyRecord d addr0 r.addr top0 r.top now (pool r.applied) e.record h
        hplain.op fun hne => pathLeaf_valid hplain.names hne
      simp only
      split
      · rename_i top addr heq
        rw [heq] at happly
        exact ih (fun x hx => hes x (.tail _ hx)) happly rfl
      · rename_i top addr heq
        rw [heq] at happly
        exact happly

theorem Grown.free (h : Grown d top0 addr0 top addr) (hempty : top0.subkeys = []) :
    Grown d top0 addr0 (cmpFreeSubtreeContents top) addr where
  wf := by
    refine .mk h.wf.depth_le h.wf.deleted .nil rfl .nil ?_ (by simp [cmpFreeSubtreeContents,
      cmpFreeValues]) (by simp [cmpFreeSubtreeContents, cmpFreeValues])
    change top.subkeyCount - top.subkeys.length = 0
    rw [h.wf.subkeyCount_eq, Nat.sub_self]
  addr_eq := h.addr_eq
  name_eq := h.name_eq
  bodyCount_eq := h.bodyCount_eq
  le := h.le
  heads := by
    refine ⟨[], ⟨nodup_nil, by simp⟩, ?_⟩
    rw [append_nil, heads_eq, heads_eq top0, hempty]
    change [(top.addr, top.bodyCount)].Perm [(top0.addr, top0.bodyCount)]
    rw [h.addr_eq, h.bodyCount_eq]

/-- **A saved image, parsed** into an empty node: whether it is taken or refused, the node is well
formed and what is below it is new. -/
theorem cmpParseSubtreeInto_grown (now : UInt64) (pool : Nat → RecordPool) (addr : Nat)
    {image : List UInt8} (himage : Saved image) (h : top.Wf d) (hempty : top.subkeys = []) :
    Grown d top addr (cmpParseSubtreeInto now pool d addr top image).2.1
      (cmpParseSubtreeInto now pool d addr top image).2.2 := by
  obtain ⟨es, rfl, hes⟩ := himage.entries
  have hdrop : (hiveHeader ++ es.flatMap Entry.encode).drop 16 = es.flatMap Entry.encode :=
    drop_left' rfl
  rw [cmpParseSubtreeInto]
  split
  · exact .refl h
  split
  · exact .refl h
  have hgrown := @Grown.replay d addr top now pool
    (hiveHeader ++ es.flatMap Entry.encode).length es hes
    ⟨top, addr, (hiveHeader ++ es.flatMap Entry.encode).drop 16, 0⟩ (.refl h) hdrop
  simp only
  split
  · exact hgrown
  · exact hgrown.free hempty

end

end Node

end Proskrnl.Cm
