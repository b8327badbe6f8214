import Proskrnl.Cm.KeyBody
import Proskrnl.Cm.Refine

/-!
# What the tree primitives keep

`Node.Wf` says of a node at a given depth, and of every node below it, that both lists are in strict
order, that the counters are their lengths and that the depth is within the cap. `Node.heads` lists
the addresses of the tree with their body counts. Each primitive keeps the first and permutes, grows
or shrinks the second.
-/

namespace Proskrnl.Cm
open Bytes ListUpdate List

namespace Node

theorem induct {motive : Node → Prop}
    (h : ∀ n, (∀ c ∈ n.subkeys, motive c) → motive n) (n : Node) : motive n := by
  refine @Node.rec motive (fun l => ∀ c ∈ l, motive c) ?_ ?_ ?_ n
  · intro addr name values valueCount time bodies deleted volatileFlag link count subkeys ih
    exact h _ ih
  · intro c hc
    cases hc
  · intro head tail hhead htail c hc
    rcases mem_cons.mp hc with rfl | hc
    · exact hhead
    · exact htail c hc

theorem keys_eq (l : List Node) : keys l = l.map key := by
  induction l with
  | nil => rfl
  | cons c l ih => rw [keys, ih, map_cons]

@[simp] theorem key_name (n : Node) : n.key.name = n.name := by cases n; rfl

@[simp] theorem key_subkeys (n : Node) : n.key.subkeys = n.subkeys.map key := by
  cases n
  exact keys_eq _

theorem key_get? (n : Node) (p : Pos) : n.key.get? p = (n.get? p).map key := by
  induction p generalizing n with
  | nil => rfl
  | cons i p ih =>
    rw [Key.get?, get?, key_subkeys, getElem?_map]
    cases n.subkeys[i]? with
    | none => rfl
    | some c => exact ih c

theorem key_cmpFindSubkey (n : Node) (name : WStr) :
    Cm.cmpFindSubkey n.key name = n.cmpFindSubkey name := by
  rw [Cm.cmpFindSubkey, cmpFindSubkey, key_subkeys, findIdx?_map]
  congr 1
  funext c
  simp

/-! ## Positions -/

variable {t n : Node} {p : Pos} {i : Nat}

theorem get?_append (q : Pos) (h : t.get? p = some n) : t.get? (p ++ q) = n.get? q := by
  induction p generalizing t with
  | nil =>
    cases h
    rfl
  | cons i p ih =>
    rw [get?] at h
    rw [cons_append, get?]
    cases hc : t.subkeys[i]? with
    | none =>
      rw [hc] at h
      cases h
    | some c =>
      rw [hc] at h
      exact ih h

theorem get?_concat (h : t.get? p = some n) (i : Nat) : t.get? (p ++ [i]) = n.subkeys[i]? := by
  rw [get?_append [i] h, get?]
  cases n.subkeys[i]? <;> rfl

theorem parent_of_get? (h : t.get? p = some n) (hi : p.getLast? = some i) :
    ∃ parent, t.get? p.dropLast = some parent ∧ parent.subkeys[i]? = some n := by
  obtain ⟨q, rfl⟩ : ∃ q, p = q ++ [i] := by
    refine ⟨p.dropLast, ?_⟩
    exact (dropLast_append_getLast? i hi).symm
  rw [dropLast_concat]
  induction q generalizing t with
  | nil =>
    refine ⟨t, rfl, ?_⟩
    rw [nil_append, get?] at h
    cases hc : t.subkeys[i]? with
    | none =>
      rw [hc] at h
      cases h
    | some c =>
      rw [hc] at h
      exact h
  | cons j q ih =>
    rw [cons_append, get?] at h
    rw [get?]
    cases hc : t.subkeys[j]? with
    | none =>
      rw [hc] at h
      cases h
    | some c =>
      rw [hc] at h
      exact ih h (by simp)

theorem name_modifyAt {f : Node → Node} (h : t.get? p = some n) (hf : (f n).name = n.name) :
    (t.modifyAt f p).name = t.name := by
  cases p with
  | nil =>
    cases h
    exact hf
  | cons i p => rfl

/-! ## Well-formed nodes -/

/-- A node at depth `d` whose lists are in strict order and counted, and every node below it. -/
inductive Wf : Nat → Node → Prop
  | mk {d : Nat} {n : Node} : d ≤ cmpHiveMaxDepth → n.deleted = false →
    n.values.Pairwise ValueBefore → n.valueCount = n.values.length →
    n.subkeys.Pairwise NodeBefore → n.subkeyCount = n.subkeys.length →
    (∀ c ∈ n.subkeys, ValidName c.name) → (∀ c ∈ n.subkeys, Wf (d + 1) c) → Wf d n

namespace Wf

variable {d : Nat} {m : Node}

section
variable (h : n.Wf d)
include h

theorem depth_le : d ≤ cmpHiveMaxDepth := by
  cases h
  assumption

theorem deleted : n.deleted = false := by
  cases h
  assumption

theorem values_sorted : n.values.Pairwise ValueBefore := by
  cases h
  assumption

theorem valueCount_eq : n.valueCount = n.values.length := by
  cases h
  assumption

theorem subkeys_sorted : n.subkeys.Pairwise NodeBefore := by
  cases h
  assumption

theorem subkeyCount_eq : n.subkeyCount = n.subkeys.length := by
  cases h
  assumption

theorem names_valid : ∀ c ∈ n.subkeys, ValidName c.name := by
  cases h
  assumption

theorem subkeys : ∀ c ∈ n.subkeys, c.Wf (d + 1) := by
  cases h
  assumption

theorem congr (hdeleted : m.deleted = n.deleted) (hvalues : m.values = n.values)
    (hvalueCount : m.valueCount = n.valueCount) (hsubkeys : m.subkeys = n.subkeys)
    (hsubkeyCount : m.subkeyCount = n.subkeyCount) : m.Wf d := by
  cases h with
  | mk hd hdel hv hvc hs hsc hnames hsub =>
    refine .mk hd (hdeleted.trans hdel) ?_ ?_ ?_ ?_ ?_ ?_
    · rw [hvalues]
      exact hv
    · rw [hvalueCount, hvalues]
      exact hvc
    · rw [hsubkeys]
      exact hs
    · rw [hsubkeyCount, hsubkeys]
      exact hsc
    · rw [hsubkeys]
      exact hnames
    · rw [hsubkeys]
      exact hsub

end

theorem get? (h : t.Wf d) (hp : t.get? p = some n) : n.Wf (d + p.length) := by
  induction p generalizing t d with
  | nil =>
    cases hp
    exact h
  | cons i p ih =>
    rw [Node.get?] at hp
    cases hc : t.subkeys[i]? with
    | none =>
      rw [hc] at hp
      cases hp
    | some c =>
      rw [hc] at hp
      have hn := ih (h.subkeys c (mem_of_getElem? hc)) hp
      rw [length_cons, Nat.add_comm p.length, ← Nat.add_assoc]
      exact hn

theorem modifyAt {f : Node → Node} (h : t.Wf d) (hp : t.get? p = some n)
    (hname : (f n).name = n.name) (hf : (f n).Wf (d + p.length)) : (t.modifyAt f p).Wf d := by
  induction p generalizing t d with
  | nil =>
    cases hp
    exact hf
  | cons i p ih =>
    rw [Node.get?] at hp
    cases hc : t.subkeys[i]? with
    | none =>
      rw [hc] at hp
      cases hp
    | some c =>
      rw [hc] at hp
      obtain ⟨l1, l2, hsub, rfl⟩ := eq_append_of_getElem? hc
      have hmem : c ∈ t.subkeys := mem_of_getElem? hc
      have hcwf : (c.modifyAt f p).Wf (d + 1) := by
        refine ih (h.subkeys c hmem) hp ?_
        rw [length_cons, Nat.add_comm p.length, ← Nat.add_assoc] at hf
        exact hf
      have hcname : (c.modifyAt f p).name = c.name := name_modifyAt hp hname
      have hsub' : (t.modifyAt f (l1.length :: p)).subkeys = l1 ++ c.modifyAt f p :: l2 := by
        rw [Node.modifyAt, hsub]
        exact modify_append_cons l1 l2 c _
      have hsorted : (l1 ++ c.modifyAt f p :: l2).Pairwise NodeBefore := by
        have hs := h.subkeys_sorted
        rw [hsub, pairwise_append, pairwise_cons] at hs
        rw [pairwise_append, pairwise_cons]
        simpa only [mem_cons, forall_eq_or_imp, NodeBefore, hcname] using hs
      cases h with
      | mk hd hdel hv hvc hs hsc hnames hchildren =>
        refine .mk hd hdel hv hvc ?_ ?_ ?_ ?_
        · rw [hsub']
          exact hsorted
        · rw [hsub', length_append, length_cons]
          rw [hsub, length_append, length_cons] at hsc
          exact hsc
        · intro x hx
          rw [hsub'] at hx
          rcases mem_append.mp hx with hx | hx
          · exact hnames x (hsub ▸ mem_append_left _ hx)
          · rcases mem_cons.mp hx with rfl | hx
            · exact hcname ▸ hnames c hmem
            · exact hnames x (hsub ▸ mem_append_right _ (.tail _ hx))
        · intro x hx
          rw [hsub'] at hx
          rcases mem_append.mp hx with hx | hx
          · exact hchildren x (hsub ▸ mem_append_left _ hx)
          · rcases mem_cons.mp hx with rfl | hx
            · exact hcwf
            · exact hchildren x (hsub ▸ mem_append_right _ (.tail _ hx))

end Wf

theorem headsOf_eq (l : List Node) : headsOf l = l.flatMap heads := by
  induction l with
  | nil => rfl
  | cons c l ih => rw [headsOf, ih, flatMap_cons]

theorem heads_eq (n : Node) : n.heads = (n.addr, n.bodyCount) :: n.subkeys.flatMap heads := by
  cases n
  rw [heads, headsOf_eq]

theorem heads_congr {m : Node} (haddr : m.addr = n.addr) (hbodies : m.bodyCount = n.bodyCount)
    (hsubkeys : m.subkeys = n.subkeys) : m.heads = n.heads := by
  rw [heads_eq, heads_eq, haddr, hbodies, hsubkeys]

theorem exists_heads (h : t.get? p = some n) : ∃ rest, t.heads.Perm (n.heads ++ rest) ∧
    ∀ f : Node → Node, (t.modifyAt f p).heads.Perm ((f n).heads ++ rest) := by
  induction p generalizing t with
  | nil =>
    cases h
    refine ⟨[], ?_, fun f => ?_⟩
    · rw [append_nil]
    · rw [append_nil]
      rfl
  | cons i p ih =>
    rw [get?] at h
    cases hc : t.subkeys[i]? with
    | none =>
      rw [hc] at h
      cases h
    | some c =>
      rw [hc] at h
      obtain ⟨l1, l2, hsub, rfl⟩ := eq_append_of_getElem? hc
      obtain ⟨rest, hrest, hmod⟩ := ih h
      have move : ∀ x y : List (Nat × Nat), x.Perm (y ++ rest) →
          ((t.addr, t.bodyCount) :: (l1.flatMap heads ++ (x ++ l2.flatMap heads))).Perm
            (y ++ ((t.addr, t.bodyCount) :: (l1.flatMap heads ++ (rest ++ l2.flatMap heads)))) := by
        intro x y hxy
        refine (((hxy.append_right _).append_left _).cons _).trans ?_
        rw [perm_iff_count]
        intro a
        simp only [List.count_cons, count_append]
        omega
      refine ⟨(t.addr, t.bodyCount) :: (l1.flatMap heads ++ (rest ++ l2.flatMap heads)), ?_,
        fun f => ?_⟩
      · rw [heads_eq, hsub, flatMap_append, flatMap_cons]
        exact move _ _ hrest
      · have hsub' : (t.modifyAt f (l1.length :: p)).subkeys = l1 ++ c.modifyAt f p :: l2 := by
          rw [Node.modifyAt, hsub]
          exact modify_append_cons l1 l2 c _
        rw [heads_eq, hsub', flatMap_append, flatMap_cons]
        exact move _ _ (hmod f)

/-! ## Linking and unlinking -/

theorem before_of_find_none {name : WStr} (h : n.cmpFindSubkey name = none) :
    ∀ c ∈ n.subkeys, Before name c.name ∨ Before c.name name := by
  rw [← key_cmpFindSubkey] at h
  intro c hc
  have := Cm.before_of_find_none h c.key
  simp only [key_subkeys, List.mem_map, key_name] at this
  exact this ⟨c, hc, rfl⟩

theorem NodeBefore.trans (a b c : Node) (h : NodeBefore a b) (h' : NodeBefore b c) :
    NodeBefore a c :=
  Before.trans h h'

section
variable {d : Nat} {c : Node}

theorem Wf.linkChild (h : n.Wf d) (hc : c.Wf (d + 1)) (hname : ValidName c.name)
    (hfind : n.cmpFindSubkey c.name = none) : (n.linkChild c).Wf d := by
  have hmem : ∀ x ∈ cmpLinkSubkeySorted n.subkeys c, x = c ∨ x ∈ n.subkeys := fun x hx =>
    (mem_orderedInsert NodeBefore).mp hx
  refine .mk h.depth_le h.deleted h.values_sorted h.valueCount_eq ?_ ?_ ?_ ?_
  · exact pairwise_orderedInsert NodeBefore.trans h.subkeys_sorted (before_of_find_none hfind)
  · rw [Node.linkChild, cmpLinkSubkeySorted, orderedInsert_length, h.subkeyCount_eq]
  · intro x hx
    rcases hmem x hx with rfl | hx
    · exact hname
    · exact h.names_valid x hx
  · intro x hx
    rcases hmem x hx with rfl | hx
    · exact hc
    · exact h.subkeys x hx

theorem heads_linkSorted (siblings : List Node) (c : Node) :
    ((cmpLinkSubkeySorted siblings c).flatMap heads).Perm
      (c.heads ++ siblings.flatMap heads) := by
  rw [← flatMap_cons]
  exact (perm_orderedInsert NodeBefore c siblings).flatMap_right heads

theorem heads_linkChild (n c : Node) : (n.linkChild c).heads.Perm (c.heads ++ n.heads) := by
  rw [heads_eq, heads_eq n]
  refine ((heads_linkSorted n.subkeys c).cons _).trans ?_
  exact perm_middle.symm

theorem perm_cons_eraseIdx {α : Type} {l : List α} {a : α} (h : l[i]? = some a) :
    l.Perm (a :: l.eraseIdx i) := by
  obtain ⟨l1, l2, rfl, rfl⟩ := eq_append_of_getElem? h
  rw [eraseIdx_append_cons]
  exact perm_middle

theorem Wf.unlinkChild (h : n.Wf d) (hi : i < n.subkeys.length) : (n.unlinkChild i).Wf d := by
  have hsub : ∀ x ∈ n.subkeys.eraseIdx i, x ∈ n.subkeys := fun x hx => mem_of_mem_eraseIdx hx
  refine .mk h.depth_le h.deleted h.values_sorted h.valueCount_eq ?_ ?_ ?_ ?_
  · exact h.subkeys_sorted.sublist (eraseIdx_sublist _ _)
  · change n.subkeyCount - 1 = (n.subkeys.eraseIdx i).length
    rw [length_eraseIdx_of_lt hi, h.subkeyCount_eq]
  · exact fun x hx => h.names_valid x (hsub x hx)
  · exact fun x hx => h.subkeys x (hsub x hx)

theorem heads_unlinkChild (hc : n.subkeys[i]? = some c) :
    n.heads.Perm (c.heads ++ (n.unlinkChild i).heads) := by
  rw [heads_eq, heads_eq (n.unlinkChild i)]
  refine (((perm_cons_eraseIdx hc).flatMap_right heads).cons _).trans ?_
  rw [flatMap_cons]
  exact perm_middle.symm

theorem Wf.cmpRenameNode {stamp : UInt64} {newName : WStr} (h : n.Wf d)
    (hname : ValidName newName) (hfind : n.cmpFindSubkey newName = none) :
    (n.cmpRenameNode stamp i newName).Wf d := by
  rw [Node.cmpRenameNode]
  split
  · rename_i child hchild
    have hlt : i < n.subkeys.length := (List.getElem?_eq_some_iff.mp hchild).1
    have hrest := h.unlinkChild hlt
    have hcwf : Wf (d + 1) { child with name := newName, lastWriteTime := stamp } :=
      (h.subkeys child (mem_of_getElem? hchild)).congr rfl rfl rfl rfl rfl
    have hfind' : (n.unlinkChild i).cmpFindSubkey newName = none := by
      rw [cmpFindSubkey, findIdx?_eq_none_iff] at hfind ⊢
      intro x hx
      exact hfind x (mem_of_mem_eraseIdx hx)
    refine (hrest.linkChild hcwf hname hfind').congr rfl rfl rfl rfl ?_
    change n.subkeyCount = n.subkeyCount - 1 + 1
    have := h.subkeyCount_eq
    omega
  · exact h

theorem heads_cmpRenameNode (stamp : UInt64) (n : Node) (i : Nat) (newName : WStr) :
    (n.cmpRenameNode stamp i newName).heads.Perm n.heads := by
  rw [cmpRenameNode]
  split
  · rename_i child hchild
    refine List.Perm.trans ?_ (heads_unlinkChild hchild).symm
    rw [heads_eq, heads_eq (n.unlinkChild i)]
    refine ((heads_linkSorted _ _).cons _).trans ?_
    have hhead : heads { child with name := newName, lastWriteTime := stamp } = child.heads :=
      heads_congr rfl rfl rfl
    rw [hhead]
    exact perm_middle.symm
  · rfl

/-! ## Values -/

theorem Wf.withValues {values : List Value} {count : Nat} (h : n.Wf d)
    (hsorted : values.Pairwise ValueBefore) (hcount : count = values.length) :
    Wf d { n with values, valueCount := count } :=
  .mk h.depth_le h.deleted hsorted hcount h.subkeys_sorted h.subkeyCount_eq h.names_valid h.subkeys

theorem Wf.cmpSetValue {name : WStr} {type : UInt32} {data : List UInt8} (h : n.Wf d) :
    (n.cmpSetValue name type data).Wf d := by
  rw [Node.cmpSetValue]
  split
  · rename_i j hj
    refine h.withValues ?_ ?_
    · obtain ⟨l1, v, l2, hvalues, rfl, -, -⟩ := findIdx?_eq_some_iff_append.mp hj
      have hs := h.values_sorted
      rw [hvalues, pairwise_append, pairwise_cons] at hs
      rw [hvalues, modify_append_cons, pairwise_append, pairwise_cons]
      simpa only [mem_cons, forall_eq_or_imp, ValueBefore] using hs
    · rw [length_modify]
      exact h.valueCount_eq
  · rename_i hnone
    refine h.withValues ?_ ?_
    · refine pairwise_orderedInsert ValueBefore.trans h.values_sorted ?_
      intro v hv
      exact (before_or_before (findIdx?_eq_none_iff.mp hnone v hv)).symm
    · rw [orderedInsert_length, h.valueCount_eq]

theorem Wf.cmpRemoveValue {name : WStr} (h : n.Wf d) (hm : n.cmpRemoveValue name = some m) :
    m.Wf d := by
  rw [Node.cmpRemoveValue] at hm
  split at hm
  · rename_i j hj
    cases hm
    refine h.withValues ?_ ?_
    · exact h.values_sorted.sublist (eraseIdx_sublist _ _)
    · rw [length_eraseIdx_of_lt (findIdx?_eq_some_iff_getElem.mp hj).1, h.valueCount_eq]
  · cases hm

structure SameLinks (n m : Node) : Prop where
  addr : m.addr = n.addr
  name : m.name = n.name
  bodyCount : m.bodyCount = n.bodyCount
  subkeys : m.subkeys = n.subkeys

theorem SameLinks.heads (h : SameLinks n m) : m.heads = n.heads :=
  heads_congr h.addr h.bodyCount h.subkeys

theorem cmpSetValue_links (n : Node) (name : WStr) (type : UInt32) (data : List UInt8) :
    SameLinks n (n.cmpSetValue name type data) := by
  rw [cmpSetValue]
  split <;> exact ⟨rfl, rfl, rfl, rfl⟩

theorem cmpRemoveValue_links {name : WStr} (h : n.cmpRemoveValue name = some m) :
    SameLinks n m := by
  rw [cmpRemoveValue] at h
  split at h
  · cases h
    exact ⟨rfl, rfl, rfl, rfl⟩
  · cases h

end

end Node

end Proskrnl.Cm
