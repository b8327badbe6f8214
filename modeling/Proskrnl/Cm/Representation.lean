import Proskrnl.Cm.BodyAccounts

/-!
# The representation invariant of the key tree

Each service keeps `Registry.Inv`, and so does a run of them. `key_tree_represented` reads off it
what the lists, the counters, the marks and the bodies of the registry promise.
-/

namespace Proskrnl.Cm
open ListUpdate RefCount List Option

namespace Registry

variable {r r' : Registry} {env : Env} {p : Pos} {n : Node} {b i : Nat} {status : NtStatus}

/-! ## Opening keys -/

variable {path : NodePath} {file : Except NtStatus (List UInt8)}

theorem ntCreateKey_inv {options : CreateOptions} (h : r.Inv)
    (hr : r.ntCreateKey env path options = some (status, r')) : r'.Inv := by
  rw [ntCreateKey] at hr
  split at hr
  · cases hr
    exact h
  split at hr
  · cases hr
  · cases hr
    exact h
  · split at hr
    · cases hr
      exact h
    split at hr
    · cases hr
      exact h
    · exact cmpCreateKeyHandle_inv h (some.inj hr)
  · cases hr
    exact h
  · rename_i p leaf hresolve
    split at hr
    · cases hr
      exact h
    rename_i parent hp
    split at hr
    · cases hr
      exact h
    split at hr
    · cases hr
      exact h
    rename_i hdepth
    split at hr
    · cases hr
      exact h
    obtain ⟨hvalid, hfind⟩ := cmpResolvePath_free hresolve hp
    refine cmpCreateKeyHandle_inv ?_ (some.inj hr)
    refine h.addChild hp ?_ hvalid hfind (Nat.le_succ _) (fresh_singleton r.next) ?_
    · exact (newNode_wf env.now r.next leaf (by omega)).congr rfl rfl rfl rfl rfl
    · rw [Node.heads_eq]
      exact .refl _

theorem ntOpenKeyEx_inv {openLink access : Bool} (h : r.Inv)
    (hr : r.ntOpenKeyEx env path openLink access = some (status, r')) : r'.Inv := by
  rw [ntOpenKeyEx] at hr
  split at hr
  · cases hr
    exact h
  split at hr
  · cases hr
  · cases hr
    exact h
  · cases hr
    exact h
  · split at hr
    · cases hr
      exact h
    · exact cmpCreateKeyHandle_inv h (some.inj hr)

/-! ## Deleting and renaming keys -/

theorem parent_linked {q : Pos} (h : (NodeRef.linked p n).parent = some (q, i))
    (hp : r.root.get? p = some n) :
    ∃ parent, r.root.get? q = some parent ∧ parent.subkeys[i]? = some n ∧ p = q ++ [i] := by
  obtain ⟨j, hj, heq⟩ := map_eq_some_iff.mp h
  cases heq
  obtain ⟨parent, hparent, hchild⟩ := Node.parent_of_get? hp hj
  exact ⟨parent, hparent, hchild, (dropLast_append_getLast? _ hj).symm⟩

theorem Inv.removeChild {now : UInt64} {parent : Node} {left : List Node} (h : r.Inv)
    (hp : r.root.get? p = some parent) (hi : parent.subkeys[i]? = some n)
    (hleft : Node.Deletion n.heads left) :
    Inv { r.modify p (removeChild now i) with limbo := r.limbo ++ left } := by
  obtain ⟨rest, hrest, hmod⟩ := Node.exists_heads hp
  obtain ⟨freed, hfreed, hperm⟩ := hleft.heads
  have hlt : i < parent.subkeys.length := (List.getElem?_eq_some_iff.mp hi).1
  have hwf := (h.wf.get? hp).unlinkChild hlt
  have hheads : (Registry.removeChild now i parent).heads = (parent.unlinkChild i).heads :=
    Node.heads_congr rfl rfl rfl
  have hafter := hmod (Registry.removeChild now i)
  rw [hheads] at hafter
  refine h.exchange ((r.root.modifyAt (Registry.removeChild now i) p).heads ++
      (r.limbo ++ left).map Node.head) freed []
    (h.wf.modifyAt hp rfl (hwf.congr rfl rfl rfl rfl rfl)) ?_ rfl rfl (le_refl _) ?_ hfreed
    ⟨nodup_nil, by simp⟩ (hold_refl _)
  · intro m hm
    rcases mem_append.mp hm with hm | hm
    · exact h.stale m hm
    · exact hleft.stale m hm
  · have hbefore : r.root.heads.Perm ((left.map Node.head ++ freed) ++
        ((parent.unlinkChild i).heads ++ rest)) := by
      refine hrest.trans (((Node.heads_unlinkChild hi).append_right rest).trans ?_)
      rw [append_assoc]
      exact hperm.append_right _
    refine (hbefore.append_right _).trans ?_
    refine List.Perm.trans ?_ ((hafter.symm.append_right _).append_right freed)
    rw [perm_iff_count]
    intro x
    simp only [map_append, count_append]
    omega

theorem ntDeleteKey_inv (h : r.Inv) (hr : r.ntDeleteKey env b = some (status, r')) : r'.Inv := by
  rw [ntDeleteKey] at hr
  split at hr
  · cases hr
  · cases hr
    exact h
  rename_i ref href
  split at hr
  · cases hr
    exact h
  rename_i hdel
  obtain ⟨hbody, -⟩ := cmpReferenceKey_body href
  obtain ⟨p, n, rfl, hp, hbound⟩ := h.linked hbody (by simpa using hdel)
  split at hr
  · cases hr
    exact h
  · cases hr
    exact h
  rename_i q i _ hparent
  split at hr
  · cases hr
    exact h
  rename_i hcount
  cases hr
  obtain ⟨parent, hq, hi, -⟩ := parent_linked hparent hp
  have hleaf : n.subkeys = [] := by
    have := (h.wf.get? hp).subkeyCount_eq
    rw [NodeRef.node, not_not] at hcount
    rw [hcount] at this
    exact eq_nil_of_length_eq_zero this.symm
  refine h.removeChild hq hi ⟨?_, [], by simp, ?_⟩
  · intro m hm
    cases mem_singleton.mp hm
    refine ⟨rfl, rfl, rfl, hleaf, not_not.mp hcount, ?_⟩
    -- the handle's own body is bound to the key
    obtain ⟨rest, hrest, -⟩ := exists_heads hp
    rw [heads_cons] at hrest
    exact Nat.pos_iff_ne_zero.mp ((h.accounted.perm hrest).pos hbound)
  · rw [append_nil, Node.heads_eq, hleaf]
    exact .refl _

theorem ntRenameKey_inv {newName : WStr} {odd : Bool} (h : r.Inv)
    (hr : r.ntRenameKey env b newName odd = some (status, r')) : r'.Inv := by
  rw [ntRenameKey] at hr
  split at hr
  · cases hr
    exact h
  split at hr
  · cases hr
    exact h
  split at hr
  · cases hr
  · cases hr
    exact h
  rename_i ref href
  obtain ⟨p, n, rfl, hp, -⟩ := h.reference href
  split at hr
  · cases hr
    exact h
  rename_i hlen
  split at hr
  · cases hr
    exact h
  rename_i hsep
  split at hr
  · cases hr
    exact h
  rename_i q i hparent
  obtain ⟨parent, hq, hi, -⟩ := parent_linked hparent hp
  rw [hq] at hr
  simp only at hr
  split at hr
  · cases hr
    exact h
  rename_i hfind
  split at hr
  · cases hr
  rename_i hne
  split at hr
  · cases hr
    exact h
  cases hr
  have hvalid : ValidName newName := ⟨hne, by omega, hsep⟩
  refine h.modify hq ?_ ?_ (Node.heads_cmpRenameNode _ _ _ _)
  · rw [Node.cmpRenameNode, hi]
  · exact (h.wf.get? hq).cmpRenameNode hvalid (by simpa using hfind)

/-! ## Values -/

theorem ntSetValueKey_inv {name : WStr} {type : UInt32} {data : List UInt8} (h : r.Inv)
    (hr : r.ntSetValueKey env b name type data = some (status, r')) : r'.Inv := by
  rw [ntSetValueKey] at hr
  split at hr
  · cases hr
    exact h
  split at hr
  · cases hr
    exact h
  split at hr
  · cases hr
  · cases hr
    exact h
  rename_i ref href
  obtain ⟨p, n, rfl, hp, -⟩ := h.reference href
  split at hr
  · cases hr
    exact h
  split at hr
  · cases hr
    exact h
  split at hr
  · cases hr
    exact h
  cases hr
  have hlinks := Node.cmpSetValue_links n name type data
  refine h.modify hp hlinks.name ?_ ?_
  · exact ((h.wf.get? hp).cmpSetValue).congr rfl rfl rfl rfl rfl
  · exact .of_eq (Node.heads_congr hlinks.addr hlinks.bodyCount hlinks.subkeys)

theorem ntDeleteValueKey_inv {name : WStr} (h : r.Inv)
    (hr : r.ntDeleteValueKey env b name = some (status, r')) : r'.Inv := by
  rw [ntDeleteValueKey] at hr
  split at hr
  · cases hr
    exact h
  split at hr
  · cases hr
    exact h
  split at hr
  · cases hr
  · cases hr
    exact h
  rename_i ref href
  obtain ⟨p, n, rfl, hp, -⟩ := h.reference href
  split at hr
  · cases hr
    exact h
  rename_i hsome
  cases hr
  obtain ⟨m, hm⟩ := ne_none_iff_exists'.mp (by simpa [NodeRef.node] using hsome)
  have hlinks := Node.cmpRemoveValue_links hm
  refine h.modify hp ?_ ?_ ?_
  · rw [hm]
    exact hlinks.name
  · rw [hm]
    exact ((h.wf.get? hp).cmpRemoveValue hm).congr rfl rfl rfl rfl rfl
  · rw [hm]
    exact .of_eq (Node.heads_congr hlinks.addr hlinks.bodyCount hlinks.subkeys)

/-! ## Images -/

theorem fresh_cons {lo hi : Nat} {l : List (Nat × Nat)} (h : Node.Fresh (lo + 1) hi l)
    (hle : lo + 1 ≤ hi) : Node.Fresh lo hi ((lo, 0) :: l) where
  nodup := by
    rw [map_cons, nodup_cons]
    refine ⟨fun hmem => ?_, h.nodup⟩
    obtain ⟨x, hx, hxa⟩ := List.mem_map.mp hmem
    have := (h.mem x hx).1
    omega
  mem x hx := by
    rcases mem_cons.mp hx with rfl | hx
    · exact ⟨le_refl _, hle, rfl⟩
    · obtain ⟨h1, h2, h3⟩ := h.mem x hx
      exact ⟨Nat.le_of_succ_le h1, h2, h3⟩

theorem readImage_ok {image : List UInt8} (h : readImage file = .ok image) : file = .ok image := by
  cases file with
  | error status => cases h
  | ok bytes =>
    rw [readImage] at h
    split at h
    · cases h
    · exact h

theorem cmpResolvePath_parent {forCreate openLink : Bool} {leaf : WStr}
    (hr : r.cmpResolvePath env path forCreate openLink = some (.ok ⟨some p, leaf, none⟩)) :
    ∃ n, r.root.get? p = some n := by
  obtain ⟨m, hm, heq⟩ := map_eq_some_iff.mp hr
  cases m with
  | error st => cases heq
  | ok name =>
    obtain ⟨q, node, hq, hnode, -, -⟩ := (cmpResolvePath_good heq).parent rfl
    cases hq
    rw [Node.key_get?] at hnode
    obtain ⟨n, hn, -⟩ := map_eq_some_iff.mp hnode
    exact ⟨n, hn⟩

theorem Inv.graft {scratch : Node} {next : Nat} {now : UInt64} (h : r.Inv)
    (hp : r.root.get? p = some n)
    (hgrown : Node.Grown (p.length + 1) (Node.newNode now r.next []) (r.next + 1) scratch next) :
    Inv { r.modify p (graft scratch) with
      next, limbo := r.limbo ++ Node.deleteSubkeys n.subkeys } := by
  obtain ⟨rest, hrest, hmod⟩ := Node.exists_heads hp
  obtain ⟨l, hl, hheads⟩ := hgrown.heads
  have hn := h.wf.get? hp
  have hold := Node.deleteSubkeys_deletion fun c hc =>
    Node.cmpDeleteNodeRecursive_deletion c (hn.subkeys c hc)
  obtain ⟨freed, hfreed, hperm⟩ := hold.heads
  have hcontent : (scratch.subkeys.flatMap Node.heads).Perm l := by
    rw [Node.heads_eq, hgrown.addr_eq, hgrown.bodyCount_eq] at hheads
    exact Perm.cons_inv hheads
  have hwf : (Registry.graft scratch n).Wf (1 + p.length) := by
    rw [Nat.add_comm]
    have hs := hgrown.wf
    exact .mk hs.depth_le hn.deleted hs.values_sorted hs.valueCount_eq hs.subkeys_sorted
      hs.subkeyCount_eq hs.names_valid hs.subkeys
  refine h.exchange ((n.addr, n.bodyCount) :: (rest ++
    (r.limbo ++ Node.deleteSubkeys n.subkeys).map Node.head)) freed l
    (h.wf.modifyAt hp rfl hwf) ?_ rfl rfl (Nat.le_of_succ_le hgrown.le) ?_ hfreed
    ⟨hl.nodup, fun x hx => ⟨Nat.le_of_succ_le (hl.mem x hx).1, (hl.mem x hx).2⟩⟩ ?_
  · intro m hm
    rcases mem_append.mp hm with hm | hm
    · exact h.stale m hm
    · exact hold.stale m hm
  · refine (hrest.append_right _).trans ?_
    rw [Node.heads_eq]
    refine (((hperm.cons _).append_right rest).append_right _).trans ?_
    rw [perm_iff_count]
    intro x
    simp only [map_append, count_append, List.count_cons]
    omega
  · refine ((hmod _).append_right _).trans ?_
    rw [Node.heads_eq]
    change (((n.addr, n.bodyCount) :: scratch.subkeys.flatMap Node.heads) ++ rest ++ _).Perm _
    refine (((hcontent.cons _).append_right rest).append_right _).trans ?_
    rw [perm_iff_count]
    intro x
    simp only [map_append, count_append, List.count_cons]
    omega

theorem ntSaveKey_inv (h : r.Inv) (hr : r.ntSaveKey env b = some (status, r')) : r'.Inv := by
  rw [ntSaveKey] at hr
  split at hr
  · cases hr
  · cases hr
    exact h
  rename_i ref href
  obtain ⟨p, n, rfl, hp, -⟩ := h.reference href
  split at hr
  · cases hr
    exact h
  split at hr
  · cases hr
    exact h
  rename_i image himage
  split at hr
  · cases hr
    obtain ⟨rfl, hcap⟩ := cmpSerializeSubtree_ok himage
    refine { h with saved := fun image hmem => ?_ }
    rcases mem_append.mp hmem with hmem | hmem
    · exact h.saved image hmem
    · cases mem_singleton.mp hmem
      exact ⟨⟨n.key, _, (h.wf.get? hp).named _, by omega, rfl⟩, hcap⟩
  · cases hr
    exact h

theorem ntLoadKey_inv (h : r.Inv) (hfile : ∀ image, file = .ok image → Saved image)
    (hr : r.ntLoadKey env path file = some (status, r')) : r'.Inv := by
  rw [ntLoadKey] at hr
  split at hr
  · cases hr
    exact h
  split at hr
  · cases hr
    exact h
  split at hr
  · cases hr
    exact h
  rename_i image hread
  have hsaved : Saved image := hfile image (readImage_ok hread)
  split at hr
  · cases hr
  · cases hr
    exact h
  · cases hr
    exact h
  · cases hr
    exact h
  rename_i p leaf hresolve
  split at hr
  · cases hr
    exact h
  rename_i hdepth
  split at hr
  · cases hr
    exact h
  cases hr
  have hgood : ∃ n, r.root.get? p = some n := cmpResolvePath_parent hresolve
  obtain ⟨n, hp⟩ := hgood
  obtain ⟨hvalid, hfind⟩ := cmpResolvePath_free hresolve hp
  have hmount : Node.Wf (p.length + 2)
      { Node.newNode env.now r.next leaf with isVolatile := true } :=
    (newNode_wf env.now r.next leaf (by omega)).congr rfl rfl rfl rfl rfl
  have hgrown := Node.cmpParseSubtreeInto_grown env.now env.replayPool (r.next + 1) hsaved hmount rfl
  obtain ⟨l, hl, hheads⟩ := hgrown.heads
  refine h.addChild hp hgrown.wf ?_ ?_ (Nat.le_of_succ_le hgrown.le) (fresh_cons hl hgrown.le) hheads
  · rw [hgrown.name_eq]
    exact hvalid
  · rw [hgrown.name_eq]
    exact hfind

theorem ntUnloadKey_inv (h : r.Inv) (hr : r.ntUnloadKey env path = some (status, r')) : r'.Inv := by
  rw [ntUnloadKey] at hr
  split at hr
  · cases hr
    exact h
  split at hr
  · cases hr
    exact h
  split at hr
  · cases hr
  · cases hr
    exact h
  · cases hr
    exact h
  split at hr
  · cases hr
    exact h
  rename_i n hp
  split at hr
  · cases hr
    exact h
  split at hr
  · cases hr
    exact h
  · cases hr
    exact h
  rename_i q i _ hparent
  cases hr
  obtain ⟨parent, hq, hi, -⟩ := parent_linked hparent hp
  exact h.removeChild hq hi (Node.cmpDeleteNodeRecursive_deletion n (h.wf.get? hp))

theorem ntRestoreKey_inv {flags : UInt32} (h : r.Inv)
    (hfile : ∀ image, file = .ok image → Saved image)
    (hr : r.ntRestoreKey env b file flags = some (status, r')) : r'.Inv := by
  rw [ntRestoreKey] at hr
  split at hr
  · cases hr
  · cases hr
    exact h
  rename_i ref href
  obtain ⟨p, n, rfl, hp, -⟩ := h.reference href
  split at hr
  · cases hr
    exact h
  split at hr
  · cases hr
    exact h
  split at hr
  · cases hr
    exact h
  split at hr
  · cases hr
    exact h
  rename_i image hread
  have hsaved : Saved image := hfile image (readImage_ok hread)
  split at hr
  · cases hr
    exact h
  have hn := h.wf.get? hp
  have hscratch : (Node.newNode env.now r.next []).Wf (p.length + 1) :=
    newNode_wf env.now r.next [] (by have := hn.depth_le; omega)
  have hgrown := Node.cmpParseSubtreeInto_grown env.now env.replayPool (r.next + 1) hsaved hscratch rfl
  simp only at hr
  split at hr
  · cases hr
    exact h.graft hp hgrown
  · cases hr
    refine { h with fresh := fun x hx => ?_ }
    exact Nat.lt_of_lt_of_le (h.fresh x hx) (Nat.le_of_succ_le hgrown.le)

/-! ## Runs -/

theorem step_inv {call : Call} (h : r.Inv)
    (himage : ∀ image, call.image = some image → image ∈ r.saved)
    (hr : r.step env call = some (status, r')) : r'.Inv := by
  have hload : ∀ file : Except NtStatus (List UInt8),
      (∀ image, file = .ok image → call.image = some image) →
        ∀ image, file = .ok image → Saved image := fun file hfile image heq =>
    h.saved image (himage image (hfile image heq))
  cases call with
  | createKey path options => exact ntCreateKey_inv h hr
  | openKey path openLink access => exact ntOpenKeyEx_inv h hr
  | closeKey b =>
    obtain ⟨s, hs, heq⟩ := map_eq_some_iff.mp hr
    cases heq
    exact cmpDeleteKeyBody_inv h hs
  | deleteKey b => exact ntDeleteKey_inv h hr
  | renameKey b newName odd => exact ntRenameKey_inv h hr
  | setValueKey b name type data => exact ntSetValueKey_inv h hr
  | deleteValueKey b name => exact ntDeleteValueKey_inv h hr
  | saveKey b => exact ntSaveKey_inv h hr
  | loadKey path file =>
    refine ntLoadKey_inv h (hload file ?_) hr
    rintro image rfl
    rfl
  | unloadKey path => exact ntUnloadKey_inv h hr
  | restoreKey b file flags =>
    refine ntRestoreKey_inv h (hload file ?_) hr
    rintro image rfl
    rfl

theorem Run.inv {r₀ : Registry} (h : r₀.Inv) (hrun : Run r₀ r) : r.Inv := by
  induction hrun with
  | refl => exact h
  | call _ himage hstep ih => exact step_inv ih himage hstep

/-- The registry at boot: a well-formed tree, and no body but the one behind `\Registry`. -/
structure Booted (r : Registry) : Prop where
  wf : r.root.Wf 1
  limbo : r.limbo = []
  bodies : r.bodies = [some r.root.addr]
  nodup : (r.root.heads.map Prod.fst).Nodup
  bodyCount : ∀ x ∈ r.root.heads, x.2 = if x.1 = r.root.addr then 1 else 0
  fresh : ∀ x ∈ r.root.heads, x.1 < r.next
  saved : r.saved = []

theorem Booted.inv (h : r.Booted) : r.Inv := by
  have hheads : r.heads = r.root.heads := by
    rw [heads, h.limbo, map_nil, append_nil]
  constructor
  · exact h.wf
  · rw [h.limbo]
    intro n hn
    cases hn
  · rw [hheads, h.bodies]
    refine ⟨h.nodup, fun x hx => ?_, fun a ha => ?_⟩
    · rw [h.bodyCount x hx, count_singleton]
      rcases eq_or_ne x.1 r.root.addr with heq | hne
      · rw [if_pos heq, heq, if_pos (beq_self_eq_true _)]
      · rw [if_neg hne, if_neg]
        simpa using Ne.symm hne
    · cases mem_singleton.mp ha
      rw [Node.heads_eq]
      exact mem_cons_self
  · rw [hheads]
    exact h.fresh
  · rw [h.saved]
    intro image himage
    cases himage

structure Represented (r : Registry) : Prop where
  /-- A linked key: its lists are strictly increasing and counted, and it is within the cap. -/
  linked : ∀ p n, r.root.get? p = some n → n.deleted = false ∧ p.length + 1 ≤ cmpHiveMaxDepth ∧
    n.subkeys.Pairwise (fun c d => rtlCompareUnicodeString c.name d.name < 0) ∧
    n.subkeyCount = n.subkeys.length ∧
    n.values.Pairwise (fun v w => rtlCompareUnicodeString v.name w.name < 0) ∧
    n.valueCount = n.values.length
  /-- What `CmpFindSubkey` returns is the only match. -/
  findSubkey : ∀ p n i c name, r.root.get? p = some n → n.subkeys[i]? = some c →
    rtlEqualUnicodeString c.name name = true → n.cmpFindSubkey name = some i
  /-- What `CmpFindValue` returns is the only match. -/
  findValue : ∀ p n i v name, r.root.get? p = some n → n.values[i]? = some v →
    rtlEqualUnicodeString v.name name = true → n.cmpFindValue name = some i
  /-- A deleted key: unlinked, empty, and kept by a body. -/
  deleted : ∀ n ∈ r.limbo, n.deleted = true ∧ n.subkeys = [] ∧ n.subkeyCount = 0 ∧
    n.values = [] ∧ n.valueCount = 0 ∧ some n.addr ∈ r.bodies ∧
    ∀ p m, r.root.get? p = some m → m.addr ≠ n.addr
  /-- The key of a live body is in memory. -/
  alive : ∀ a, some a ∈ r.bodies → (r.deref a).isSome
  /-- No two nodes share an address. -/
  addresses : (r.heads.map Prod.fst).Nodup
  /-- The body count of a linked key. -/
  bodyCount : ∀ p n, r.root.get? p = some n → n.bodyCount = r.bodies.count (some n.addr)
  /-- The body count of a deleted key. -/
  deletedBodyCount : ∀ n ∈ r.limbo, n.bodyCount = r.bodies.count (some n.addr)

theorem findIdx?_of_sorted {α : Type} {name : α → WStr} {l : List α} {c : α} {w : WStr}
    (hsorted : l.Pairwise fun x y => Before (name x) (name y)) (hi : l[i]? = some c)
    (hc : rtlEqualUnicodeString (name c) w = true) :
    l.findIdx? (fun x => rtlEqualUnicodeString (name x) w) = some i := by
  obtain ⟨l₁, l₂, rfl, rfl⟩ := eq_append_of_getElem? hi
  rw [findIdx?_eq_some_iff_append]
  refine ⟨l₁, c, l₂, rfl, rfl, hc, fun x hx => ?_⟩
  have hbefore := (pairwise_append.mp hsorted).2.2 x hx c mem_cons_self
  by_contra hne
  have hx : foldUnits (name x) = foldUnits w :=
    rtlEqualUnicodeString_iff.mp (Bool.not_eq_false _ ▸ hne)
  have hcw := rtlEqualUnicodeString_iff.mp hc
  have := before_iff.mp hbefore
  rw [hx, hcw] at this
  exact lt_irrefl _ this

theorem mem_heads_of_get? (hp : r.root.get? p = some n) : n.head ∈ r.root.heads := by
  obtain ⟨rest, hrest, -⟩ := Node.exists_heads hp
  rw [hrest.mem_iff, heads_cons]
  exact mem_cons_self

theorem Inv.represented (h : r.Inv) : r.Represented where
  linked p n hp := by
    have hn := h.wf.get? hp
    refine ⟨hn.deleted, ?_, hn.subkeys_sorted, hn.subkeyCount_eq, hn.values_sorted,
      hn.valueCount_eq⟩
    rw [Nat.add_comm]
    exact hn.depth_le
  findSubkey p n i c name hp hi hc := findIdx?_of_sorted (h.wf.get? hp).subkeys_sorted hi hc
  findValue p n i v name hp hi hv := findIdx?_of_sorted (h.wf.get? hp).values_sorted hi hv
  deleted n hn := by
    have hs := h.stale n hn
    refine ⟨hs.deleted, hs.subkeys, hs.subkeyCount, hs.values, hs.valueCount, ?_, ?_⟩
    · have hcount : n.bodyCount = r.bodies.count (some n.addr) :=
        h.accounted.count n.head (mem_append_right _ (List.mem_map_of_mem hn))
      refine count_pos_iff.mp ?_
      rw [← hcount]
      exact Nat.pos_iff_ne_zero.mpr hs.bodies
    · intro p m hp heq
      have hnodup := h.accounted.nodup
      rw [heads, map_append, nodup_append] at hnodup
      refine hnodup.2.2 m.addr (List.mem_map_of_mem (mem_heads_of_get? hp)) n.addr ?_ heq
      exact List.mem_map_of_mem (List.mem_map_of_mem hn)
  alive a ha := h.deref_isSome ha
  addresses := h.accounted.nodup
  bodyCount p n hp := h.accounted.count n.head (mem_append_left _ (mem_heads_of_get? hp))
  deletedBodyCount n hn :=
    h.accounted.count n.head (mem_append_right _ (List.mem_map_of_mem hn))

/-- **The key tree keeps its representation** through every sequence of calls from a boot. -/
theorem key_tree_represented {r₀ r : Registry} (hboot : r₀.Booted) (hrun : Run r₀ r) :
    r.Represented :=
  (hrun.inv hboot.inv).represented

/-- A boot without a hive file: `Machine` and `User` under `\Registry`. -/
def firstBoot : Registry :=
  { root := { Node.newNode 0 0 registryName with
      bodyCount := 1, subkeyCount := 2
      subkeys := [Node.newNode 0 1 [0x4D], Node.newNode 0 2 [0x55]] }
    limbo := []
    bodies := [some 0]
    next := 3
    saved := [] }

theorem firstBoot_booted : firstBoot.Booted where
  wf := by
    refine .mk (by decide) rfl .nil rfl ?_ rfl ?_ ?_
    · have hbefore : Node.NodeBefore (Node.newNode 0 1 [0x4D]) (Node.newNode 0 2 [0x55]) := by
        decide +kernel
      exact .cons (by simpa using hbefore) (.cons (by simp) .nil)
    · decide
    · intro c hc
      have hdepth : (1 : Nat) + 1 ≤ cmpHiveMaxDepth := by decide
      rcases mem_cons.mp hc with rfl | hc
      · exact newNode_wf 0 1 _ hdepth
      · cases mem_singleton.mp hc
        exact newNode_wf 0 2 _ hdepth
  limbo := rfl
  bodies := rfl
  nodup := by decide
  bodyCount := by decide
  fresh := by decide
  saved := rfl

/-- `NtCreateKey` on `M\A`. -/
def createdA : Option (NtStatus × Registry) :=
  firstBoot.step {} (.createKey (.absolute [0x5C, 0x4D, 0x5C, 0x41]) {})

def deletedA : Option (NtStatus × Registry) :=
  createdA.bind fun s => s.2.step {} (.deleteKey 1)

/-- A run that leaves a deleted key behind: its handle is still open. -/
theorem key_tree_represented_deleted : ∃ st r, deletedA = some (st, r) ∧ Run firstBoot r ∧
    r.limbo.length = 1 ∧ r.bodies = [some 0, some 3] ∧ r.Represented := by
  obtain ⟨⟨st₁, r₁⟩, h₁⟩ : ∃ s, createdA = some s :=
    isSome_iff_exists.mp (by decide +kernel)
  obtain ⟨⟨st₂, r₂⟩, h₂⟩ : ∃ s, deletedA = some s :=
    isSome_iff_exists.mp (by decide +kernel)
  have hlimbo : deletedA.map (fun s => (s.2.limbo.length, s.2.bodies)) =
      some (1, [some 0, some 3]) := by decide +kernel
  rw [h₂] at hlimbo
  obtain ⟨hlen, hbodies⟩ := Prod.mk.inj (some.inj hlimbo)
  have hrun₁ : Run firstBoot r₁ := .call .refl (fun _ himage => by cases himage) h₁
  have hstep : r₁.step {} (.deleteKey 1) = some (st₂, r₂) := by
    rw [← h₂, deletedA, h₁]
    rfl
  have hrun₂ : Run firstBoot r₂ := .call hrun₁ (fun _ himage => by cases himage) hstep
  exact ⟨st₂, r₂, h₂, hrun₂, hlen, hbodies, key_tree_represented firstBoot_booted hrun₂⟩

end Registry

end Proskrnl.Cm
