import Proskrnl.Library.RefCount
import Proskrnl.Cm.NodeReplay

/-!
# Nodes and the bodies bound to them

`Registry.Inv`: the linked nodes are well formed, the deleted ones are empty and wait for their
bodies, and the body counts of both are the numbers of bodies bound to them. What happens to it when
a body is bound or goes, when a node changes in place and when nodes come and go.
-/

namespace Proskrnl.Cm
open ListUpdate RefCount List Option

namespace Node

variable {t n : Node} {p : Pos} {i a : Nat}

/-! ## Finding a node by its address -/

theorem find?_eq (a : Nat) (n : Node) :
    n.find? a = if n.addr = a then some [] else findIn a 0 n.subkeys := by
  cases n
  rfl

variable {l : List Node}

theorem findIn_eq_some (h : findIn a i l = some p) :
    ∃ j c q, l[j]? = some c ∧ c.find? a = some q ∧ p = (i + j) :: q := by
  induction l generalizing i with
  | nil => cases h
  | cons c l ih =>
    rw [findIn] at h
    split at h
    · rename_i q hq
      cases h
      exact ⟨0, c, q, rfl, hq, rfl⟩
    · obtain ⟨j, c', q, hc, hq, rfl⟩ := ih h
      exact ⟨j + 1, c', q, hc, hq, by rw [Nat.add_right_comm, Nat.add_assoc]⟩

theorem findIn_eq_none (h : findIn a i l = none) : ∀ c ∈ l, c.find? a = none := by
  induction l generalizing i with
  | nil =>
    intro c hc
    cases hc
  | cons c l ih =>
    rw [findIn] at h
    split at h
    · cases h
    · rename_i hnone
      intro x hx
      rcases mem_cons.mp hx with rfl | hx
      · exact hnone
      · exact ih h x hx

theorem get?_of_find? (t : Node) : ∀ {p : Pos}, t.find? a = some p →
    ∃ n, t.get? p = some n ∧ n.addr = a := by
  induction t using Node.induct with
  | h t ih =>
    intro p h
    rw [find?_eq] at h
    split at h
    · rename_i haddr
      cases h
      exact ⟨t, rfl, haddr⟩
    · obtain ⟨j, c, q, hc, hq, rfl⟩ := findIn_eq_some h
      rw [Nat.zero_add, get?, hc]
      exact ih c (mem_of_getElem? hc) hq

theorem not_mem_heads_of_find? (t : Node) (h : t.find? a = none) :
    a ∉ t.heads.map Prod.fst := by
  induction t using Node.induct with
  | h t ih =>
    rw [find?_eq] at h
    split at h
    · cases h
    · rename_i haddr
      rw [heads_eq, map_cons, mem_cons, not_or]
      refine ⟨Ne.symm haddr, fun hmem => ?_⟩
      obtain ⟨x, hx, rfl⟩ := List.mem_map.mp hmem
      obtain ⟨c, hc, hx⟩ := mem_flatMap.mp hx
      exact ih c hc (findIn_eq_none h c hc) (List.mem_map_of_mem hx)

/-! ## Deleting a subtree -/

def head (n : Node) : Nat × Nat := (n.addr, n.bodyCount)

structure Stale (n : Node) : Prop where
  deleted : n.deleted = true
  values : n.values = []
  valueCount : n.valueCount = 0
  subkeys : n.subkeys = []
  subkeyCount : n.subkeyCount = 0
  bodies : n.bodyCount ≠ 0

theorem cmpDeleteNodeRecursive_eq (n : Node) : n.cmpDeleteNodeRecursive =
    deleteSubkeys n.subkeys ++ if n.bodyCount = 0 then [] else
      [{ cmpFreeValues { n with subkeyCount := n.subkeyCount - n.subkeys.length, subkeys := [] }
        with deleted := true }] := by
  cases n
  rfl

structure Deletion (before : List (Nat × Nat)) (left : List Node) : Prop where
  stale : ∀ n ∈ left, n.Stale
  heads : ∃ freed : List (Nat × Nat), (∀ x ∈ freed, x.2 = 0) ∧
    before.Perm (left.map head ++ freed)

theorem Deletion.append {b1 b2 : List (Nat × Nat)} {l1 l2 : List Node} (h1 : Deletion b1 l1)
    (h2 : Deletion b2 l2) : Deletion (b1 ++ b2) (l1 ++ l2) where
  stale n hn := (mem_append.mp hn).elim (h1.stale n) (h2.stale n)
  heads := by
    obtain ⟨f1, hf1, hp1⟩ := h1.heads
    obtain ⟨f2, hf2, hp2⟩ := h2.heads
    refine ⟨f1 ++ f2, fun x hx => (mem_append.mp hx).elim (hf1 x) (hf2 x), ?_⟩
    refine (hp1.append hp2).trans ?_
    rw [perm_iff_count]
    intro x
    simp only [map_append, count_append]
    omega

theorem deleteSubkeys_deletion (h : ∀ c ∈ l, Deletion c.heads c.cmpDeleteNodeRecursive) :
    Deletion (l.flatMap Node.heads) (deleteSubkeys l) := by
  induction l with
  | nil => exact ⟨fun n hn => (not_mem_nil hn).elim, [], by simp, .refl _⟩
  | cons c l ih =>
    rw [flatMap_cons, deleteSubkeys]
    exact (h c mem_cons_self).append (ih fun x hx => h x (mem_cons_of_mem _ hx))

theorem cmpDeleteNodeRecursive_deletion (n : Node) : ∀ {d : Nat}, n.Wf d →
    Deletion n.heads n.cmpDeleteNodeRecursive := by
  induction n using Node.induct with
  | h n ih =>
    intro d hwf
    have hsub := deleteSubkeys_deletion fun c hc => ih c hc (hwf.subkeys c hc)
    have hself : Deletion [(n.addr, n.bodyCount)] (if n.bodyCount = 0 then [] else
        [{ cmpFreeValues { n with subkeyCount := n.subkeyCount - n.subkeys.length, subkeys := [] }
          with deleted := true }]) := by
      split
      · rename_i hzero
        refine ⟨fun m hm => (not_mem_nil hm).elim, [(n.addr, n.bodyCount)], ?_, .refl _⟩
        intro x hx
        cases mem_singleton.mp hx
        exact hzero
      · rename_i hbodies
        refine ⟨fun m hm => ?_, [], by simp, .refl _⟩
        cases mem_singleton.mp hm
        refine ⟨rfl, rfl, rfl, rfl, ?_, hbodies⟩
        change n.subkeyCount - n.subkeys.length = 0
        rw [hwf.subkeyCount_eq, Nat.sub_self]
    rw [heads_eq, cmpDeleteNodeRecursive_eq]
    have hboth := hsub.append hself
    refine ⟨hboth.stale, ?_⟩
    obtain ⟨freed, hfreed, hperm⟩ := hboth.heads
    exact ⟨freed, hfreed, (perm_append_singleton _ _).symm.trans hperm⟩

end Node

namespace Registry

/-- The addresses of all nodes in the pool with their body counts. -/
def heads (r : Registry) : List (Nat × Nat) := r.root.heads ++ r.limbo.map Node.head

structure Inv (r : Registry) : Prop where
  wf : r.root.Wf 1
  stale : ∀ n ∈ r.limbo, n.Stale
  accounted : Accounted r.heads r.bodies
  fresh : ∀ x ∈ r.heads, x.1 < r.next
  saved : ∀ image ∈ r.saved, Saved image

variable {r r' : Registry} {env : Env} {p : Pos} {n : Node} {a b i : Nat} {ref : NodeRef}
variable {f : Node → Node} {status : NtStatus}

/-! ## Pointers -/

theorem deref_linked (h : r.deref a = some (.linked p n)) :
    r.root.get? p = some n ∧ n.addr = a := by
  rw [deref] at h
  split at h
  · rename_i q hq
    obtain ⟨m, hm, haddr⟩ := Node.get?_of_find? r.root hq
    rw [hm] at h
    cases h
    exact ⟨hm, haddr⟩
  · simp only [bind_eq_some_iff, map_eq_some_iff] at h
    obtain ⟨_, _, _, _, hcon⟩ := h
    cases hcon

theorem deref_unlinked (h : r.deref a = some (.unlinked i n)) :
    r.limbo[i]? = some n ∧ n.addr = a := by
  rw [deref] at h
  split at h
  · simp only [map_eq_some_iff] at h
    obtain ⟨_, _, hcon⟩ := h
    cases hcon
  · simp only [bind_eq_some_iff, map_eq_some_iff] at h
    obtain ⟨j, hj, m, hm, heq⟩ := h
    cases heq
    refine ⟨hm, ?_⟩
    obtain ⟨hlt, hdec, -⟩ := findIdx?_eq_some_iff_getElem.mp hj
    rw [getElem?_eq_getElem hlt] at hm
    cases hm
    simpa using hdec

theorem Inv.deref_isSome (h : r.Inv) (hb : some a ∈ r.bodies) : (r.deref a).isSome := by
  rw [deref]
  split
  · rename_i q hq
    obtain ⟨m, hm, -⟩ := Node.get?_of_find? r.root hq
    rw [hm]
    rfl
  · rename_i hnone
    have hmem := h.accounted.bound a hb
    rw [heads, map_append, mem_append] at hmem
    obtain ⟨x, hx, hxa⟩ := List.mem_map.mp
      (hmem.resolve_left (Node.not_mem_heads_of_find? r.root hnone))
    obtain ⟨m, hm, rfl⟩ := List.mem_map.mp hx
    cases hfind : r.limbo.findIdx? fun n => decide (n.addr = a) with
    | none =>
      have hne := findIdx?_eq_none_iff.mp hfind m hm
      rw [decide_eq_false_iff_not] at hne
      exact absurd hxa hne
    | some j =>
      obtain ⟨hlt, -⟩ := findIdx?_eq_some_iff_getElem.mp hfind
      rw [bind_some, getElem?_eq_getElem hlt]
      rfl

theorem body_ok (h : r.body b = some (.ok ref)) :
    ∃ a, r.bodies[b]? = some (some a) ∧ r.deref a = some ref := by
  rw [body] at h
  split at h
  · rename_i a ha
    obtain ⟨m, hm, heq⟩ := map_eq_some_iff.mp h
    cases heq
    exact ⟨a, ha, hm⟩
  · cases h

theorem cmpReferenceKey_body {allowDeleted : Bool}
    (h : r.cmpReferenceKey env b allowDeleted = some (.ok ref)) :
    r.body b = some (.ok ref) ∧ (allowDeleted = false → ref.node.deleted = false) := by
  rw [cmpReferenceKey] at h
  split at h
  · cases h
  obtain ⟨m, hm, heq⟩ := map_eq_some_iff.mp h
  cases m with
  | error st => cases heq
  | ok ref' =>
    simp only at heq
    split at heq
    · cases heq
    · rename_i hdel
      cases heq
      refine ⟨hm, fun hallow => ?_⟩
      rw [hallow] at hdel
      simpa using hdel

theorem Inv.linked (h : r.Inv) (hb : r.body b = some (.ok ref)) (hdel : ref.node.deleted = false) :
    ∃ p n, ref = .linked p n ∧ r.root.get? p = some n ∧ r.bodies[b]? = some (some n.addr) := by
  obtain ⟨a, ha, href⟩ := body_ok hb
  cases ref with
  | linked p n =>
    obtain ⟨hp, rfl⟩ := deref_linked href
    exact ⟨p, n, rfl, hp, ha⟩
  | unlinked i n =>
    obtain ⟨hi, -⟩ := deref_unlinked href
    have hstale := h.stale n (mem_of_getElem? hi)
    rw [NodeRef.node, hstale.deleted] at hdel
    cases hdel

theorem Inv.reference (h : r.Inv) (hr : r.cmpReferenceKey env b false = some (.ok ref)) :
    ∃ p n, ref = .linked p n ∧ r.root.get? p = some n ∧ r.bodies[b]? = some (some n.addr) := by
  obtain ⟨hb, hdel⟩ := cmpReferenceKey_body hr
  exact h.linked hb (hdel rfl)

theorem exists_heads (hp : r.root.get? p = some n) : ∃ rest, r.heads.Perm (n.heads ++ rest) ∧
    ∀ f, (r.modify p f).heads.Perm ((f n).heads ++ rest) := by
  obtain ⟨rest, hrest, hmod⟩ := Node.exists_heads hp
  refine ⟨rest ++ r.limbo.map Node.head, ?_, fun f => ?_⟩
  · rw [← append_assoc]
    exact hrest.append_right _
  · rw [← append_assoc]
    exact (hmod f).append_right _

theorem Inv.modify (h : r.Inv) (hp : r.root.get? p = some n) (hname : (f n).name = n.name)
    (hwf : (f n).Wf (1 + p.length)) (hheads : (f n).heads.Perm n.heads) : (r.modify p f).Inv := by
  obtain ⟨rest, hrest, hmod⟩ := exists_heads hp
  have hperm : r.heads.Perm (r.modify p f).heads :=
    hrest.trans ((hheads.symm.append_right rest).trans (hmod f).symm)
  exact {
    wf := h.wf.modifyAt hp hname hwf
    stale := h.stale
    accounted := h.accounted.perm hperm
    fresh := fun x hx => h.fresh x (hperm.mem_iff.mpr hx)
    saved := h.saved }

theorem heads_cons (n : Node) (rest : List (Nat × Nat)) :
    n.heads ++ rest = (n.addr, n.bodyCount) :: (n.subkeys.flatMap Node.heads ++ rest) := by
  rw [Node.heads_eq, cons_append]

/-! ## Bodies -/

theorem Inv.rebind {bodies : List (Option Nat)} (h : r.Inv) (hp : r.root.get? p = some n)
    {count : Nat} (hbodies : ∀ rest, Accounted ((n.addr, n.bodyCount) :: rest) r.bodies →
      Accounted ((n.addr, count) :: rest) bodies) (hf : f n = { n with bodyCount := count }) :
    Inv { r.modify p f with bodies } := by
  obtain ⟨rest, hrest, hmod⟩ := exists_heads hp
  have hold := hrest
  rw [heads_cons] at hold
  have hnew := hmod f
  rw [hf, heads_cons] at hnew
  constructor
  · refine h.wf.modifyAt hp ?_ ?_
    · rw [hf]
    · rw [hf]
      exact (h.wf.get? hp).congr rfl rfl rfl rfl rfl
  · exact h.stale
  · exact (hbodies _ (h.accounted.perm hold)).perm hnew.symm
  · intro x hx
    rcases mem_cons.mp (hnew.mem_iff.mp hx) with rfl | hx
    · exact h.fresh (n.addr, n.bodyCount) (hold.mem_iff.mpr mem_cons_self)
    · exact h.fresh x (hold.mem_iff.mpr (mem_cons_of_mem _ hx))
  · exact h.saved

theorem cmpCreateKeyHandle_inv (h : r.Inv) (hr : r.cmpCreateKeyHandle env p = (status, r')) :
    r'.Inv := by
  rw [cmpCreateKeyHandle] at hr
  split at hr
  · cases hr
    exact h
  rename_i node hp
  split at hr
  · cases hr
    exact h
  cases hr
  exact h.rebind hp (fun rest hacc => hacc.take) rfl

theorem heads_limbo (hi : r.limbo[i]? = some n) (limbo : List Node)
    (hlimbo : limbo.Perm (r.limbo.eraseIdx i)) :
    r.heads.Perm (n.head :: (r.root.heads ++ limbo.map Node.head)) := by
  refine (((Node.perm_cons_eraseIdx hi).map Node.head).append_left r.root.heads).trans ?_
  rw [map_cons]
  refine perm_middle.trans ?_
  exact (((hlimbo.map Node.head).symm.append_left r.root.heads).cons _)

theorem cmpDeleteKeyBody_inv (h : r.Inv) (hr : r.cmpDeleteKeyBody b = some r') : r'.Inv := by
  rw [cmpDeleteKeyBody] at hr
  split at hr
  · rename_i a ha
    split at hr
    · cases hr
    rename_i ref href
    split at hr
    · cases hr
    rename_i hcount
    simp only at hr
    cases ref with
    | linked p n =>
      obtain ⟨hp, rfl⟩ := deref_linked href
      simp only at hr
      split at hr
      · cases hr
      cases hr
      exact h.rebind hp (fun rest hacc => hacc.drop ha) rfl
    | unlinked i n =>
      obtain ⟨hi, rfl⟩ := deref_unlinked href
      have hstale := h.stale n (mem_of_getElem? hi)
      obtain ⟨l1, l2, hlimbo, rfl⟩ := eq_append_of_getElem? hi
      have herase : r.limbo.eraseIdx l1.length = l1 ++ l2 := by
        rw [hlimbo]
        exact eraseIdx_append_cons l1 l2 n
      have hmodify : ∀ g : Node → Node, r.limbo.modify l1.length g = l1 ++ g n :: l2 := by
        intro g
        rw [hlimbo]
        exact modify_append_cons l1 l2 n g
      have hold := heads_limbo hi (l1 ++ l2) (by rw [herase])
      have hdrop := (h.accounted.perm hold).drop ha
      have hkeep : ∀ m ∈ l1 ++ l2, m.Stale := by
        intro m hm
        refine h.stale m ?_
        rw [hlimbo]
        rcases mem_append.mp hm with hm | hm
        · exact mem_append_left _ hm
        · exact mem_append_right _ (.tail _ hm)
      simp only [update, hmodify] at hr
      split at hr
      · rename_i hlast
        split at hr
        · cases hr
        cases hr
        have hone : n.bodyCount = 1 := by
          rw [hstale.deleted] at hlast
          simpa using hlast
        -- the last body: the node goes, and nothing refers to it any more
        have hgone : Accounted (r.root.heads ++ (l1 ++ l2).map Node.head) (r.bodies.set b none) := by
          refine (hdrop.perm (perm_append_singleton _ _).symm).of_append ?_
          intro x hx
          cases mem_singleton.mp hx
          change n.bodyCount - 1 = 0
          omega
        constructor
        · exact h.wf
        · rw [eraseIdx_append_cons]
          exact hkeep
        · rw [heads, eraseIdx_append_cons]
          exact hgone
        · intro x hx
          rw [heads, eraseIdx_append_cons] at hx
          exact h.fresh x (hold.mem_iff.mpr (mem_cons_of_mem _ hx))
        · exact h.saved
      · rename_i hlast
        cases hr
        have hmore : n.bodyCount ≠ 1 := by
          rw [hstale.deleted] at hlast
          simpa using hlast
        have hnew : (r.root.heads ++ (l1 ++ { n with bodyCount := n.bodyCount - 1 } :: l2).map
            Node.head).Perm ((n.addr, n.bodyCount - 1) ::
              (r.root.heads ++ (l1 ++ l2).map Node.head)) := by
          rw [map_append, map_cons, map_append, ← append_assoc,
            ← append_assoc]
          exact perm_middle
        constructor
        · exact h.wf
        · intro m hm
          rcases mem_append.mp hm with hm | hm
          · exact hkeep m (mem_append_left _ hm)
          · rcases mem_cons.mp hm with rfl | hm
            · refine ⟨hstale.deleted, hstale.values, hstale.valueCount, hstale.subkeys,
                hstale.subkeyCount, ?_⟩
              change n.bodyCount - 1 ≠ 0
              rw [NodeRef.node] at hcount
              omega
            · exact hkeep m (mem_append_right _ hm)
        · exact hdrop.perm hnew.symm
        · intro x hx
          rcases mem_cons.mp (hnew.mem_iff.mp hx) with rfl | hx
          · exact h.fresh n.head (hold.mem_iff.mpr mem_cons_self)
          · exact h.fresh x (hold.mem_iff.mpr (mem_cons_of_mem _ hx))
        · exact h.saved
  · cases hr
    exact h

/-! ## Nodes that come and go -/

theorem Inv.exchange (h : r.Inv) (kept freed l : List (Nat × Nat)) (hwf : r'.root.Wf 1)
    (hstale : ∀ n ∈ r'.limbo, n.Stale) (hbodies : r'.bodies = r.bodies)
    (hsaved : r'.saved = r.saved) (hle : r.next ≤ r'.next) (hold : r.heads.Perm (kept ++ freed))
    (hfreed : ∀ x ∈ freed, x.2 = 0) (hl : Node.Fresh r.next r'.next l)
    (hnew : r'.heads.Perm (kept ++ l)) : r'.Inv := by
  have hkept : ∀ x ∈ kept, x.1 < r.next := fun x hx =>
    h.fresh x (hold.mem_iff.mpr (mem_append_left _ hx))
  constructor
  · exact hwf
  · exact hstale
  · rw [hbodies]
    refine Accounted.perm ?_ hnew.symm
    refine ((h.accounted.perm hold).of_append hfreed).append hl.nodup
      (fun x hx => (hl.mem x hx).2.2) fun x hx hmem => ?_
    obtain ⟨y, hy, hxy⟩ := List.mem_map.mp hmem
    have := hkept y hy
    have := (hl.mem x hx).1
    omega
  · intro x hx
    rcases mem_append.mp (hnew.mem_iff.mp hx) with hx | hx
    · exact Nat.lt_of_lt_of_le (hkept x hx) hle
    · exact (hl.mem x hx).2.1
  · rw [hsaved]
    exact h.saved

theorem hold_refl (heads : List (Nat × Nat)) : heads.Perm (heads ++ []) := by
  rw [append_nil]

theorem Inv.addChild {now : UInt64} {child : Node} {next : Nat} {l : List (Nat × Nat)}
    (h : r.Inv) (hp : r.root.get? p = some n) (hchild : child.Wf (p.length + 2))
    (hname : ValidName child.name) (hfind : n.cmpFindSubkey child.name = none)
    (hle : r.next ≤ next) (hl : Node.Fresh r.next next l) (hheads : child.heads.Perm l) :
    Inv { r.modify p (addChild now child) with next } := by
  obtain ⟨rest, hrest, hmod⟩ := exists_heads hp
  have hdepth : p.length + 2 = 1 + p.length + 1 := by omega
  rw [hdepth] at hchild
  have hlinked := (h.wf.get? hp).linkChild hchild hname hfind
  refine h.exchange r.heads [] l (h.wf.modifyAt hp rfl (hlinked.congr rfl rfl rfl rfl rfl)) h.stale
    rfl rfl hle (hold_refl r.heads) (by simp) hl ?_
  · have hadded : (Registry.addChild now child n).heads = (n.linkChild child).heads :=
      Node.heads_congr rfl rfl rfl
    refine (hmod _).trans ?_
    rw [hadded]
    refine ((Node.heads_linkChild n child).append_right rest).trans ?_
    rw [append_assoc]
    refine (hheads.append hrest.symm).trans ?_
    exact perm_append_comm

theorem cmpResolvePath_free {path : NodePath} {forCreate openLink : Bool} {leaf : WStr}
    (hr : r.cmpResolvePath env path forCreate openLink = some (.ok ⟨some p, leaf, none⟩))
    (hp : r.root.get? p = some n) : ValidName leaf ∧ n.cmpFindSubkey leaf = none := by
  obtain ⟨m, hm, heq⟩ := map_eq_some_iff.mp hr
  cases m with
  | error st => cases heq
  | ok name =>
    obtain ⟨q, node, hq, hnode, hvalid, hfind⟩ := (cmpResolvePath_good heq).parent rfl
    cases hq
    rw [Node.key_get?, hp] at hnode
    cases hnode
    rw [Node.key_cmpFindSubkey] at hfind
    exact ⟨hvalid, hfind⟩

theorem newNode_wf (now : UInt64) (addr : Nat) (name : WStr) {d : Nat} (hd : d ≤ cmpHiveMaxDepth) :
    (Node.newNode now addr name).Wf d :=
  .mk hd rfl .nil rfl .nil rfl (by simp [Node.newNode]) (by simp [Node.newNode])

theorem fresh_singleton (next : Nat) : Node.Fresh next (next + 1) [(next, 0)] where
  nodup := nodup_singleton _
  mem x hx := by
    cases mem_singleton.mp hx
    exact ⟨le_refl _, Nat.lt_succ_self _, rfl⟩

end Registry

end Proskrnl.Cm
