import Proskrnl.Cm.Services

/-!
# The image of the tree that survives a boot

`Key.image` is what a snapshot keeps of a tree, with the last-write times left out. A key is in the
image when no key on the way to it is volatile (`Key.visible`). The lemmas say what a change of one
key does to the image: nothing where the key is not visible (`Key.image_modifyAt_of_eq`), and along
the path of its name otherwise (`Key.updatePath_image`).
-/

namespace Proskrnl.Cm
open ListUpdate List Option

mutual

/-- A tree with its last-write times left out. -/
def Key.untimed : Key → Key
  | ⟨name, values, _, bodies, volatileFlag, link, subkeys⟩ =>
    ⟨name, values, 0, bodies, volatileFlag, link, untimedSubkeys subkeys⟩

def untimedSubkeys : List Key → List Key
  | [] => []
  | child :: rest => child.untimed :: untimedSubkeys rest

end

theorem Key.untimed_eq (k : Key) :
    k.untimed = { k with lastWriteTime := 0, subkeys := k.subkeys.map Key.untimed } := by
  have hsub : ∀ subkeys, untimedSubkeys subkeys = subkeys.map Key.untimed := by
    intro subkeys
    induction subkeys with
    | nil => rfl
    | cons child rest ih => rw [untimedSubkeys, ih, map_cons]
  cases k
  rw [Key.untimed, hsub]

@[simp] theorem Key.untimed_name (k : Key) : k.untimed.name = k.name := by rw [Key.untimed_eq]

/-- What a snapshot keeps of a tree, times left out. -/
def Key.image (k : Key) : Key := k.project fun _ => 0

abbrev keepImage : Key → Option Key := keep fun _ => 0

theorem Key.image_eq (k : Key) :
    k.image = { k with
      lastWriteTime := 0, bodyCount := 0, isVolatile := false,
      subkeys := k.subkeys.filterMap keepImage } :=
  Key.project_eq _ k

@[simp] theorem Key.image_name (k : Key) : k.image.name = k.name := by rw [Key.image_eq]

theorem keepImage_of_volatile {c : Key} (h : c.isVolatile = true) : keepImage c = none := by
  simp [keepImage, keep, h]

theorem keepImage_of_stable {c : Key} (h : c.isVolatile = false) :
    keepImage c = some c.image := by
  simp [keepImage, keep, h, Key.image]

theorem keepImage_name {c d : Key} (h : keepImage c = some d) : d.name = c.name := by
  cases hvol : c.isVolatile with
  | true => rw [keepImage_of_volatile hvol] at h; cases h
  | false => rw [keepImage_of_stable hvol] at h; cases h; exact c.image_name

theorem Key.untimed_project_id (k : Key) : (k.project id).untimed = k.image := by
  induction k using Key.induct with
  | h k ih =>
    rw [Key.untimed_eq, Key.project_eq, Key.image_eq]
    simp only [map_filterMap]
    congr 1
    refine filterMap_congr fun c hc => ?_
    have := ih c hc
    cases hvol : c.isVolatile <;> simp [keep, hvol, this, Key.image]

/-! ## Visible keys -/

/-- No key on the way down to the position is volatile, the last one included. -/
def Key.visible : Key → Pos → Bool
  | _, [] => true
  | k, i :: p => (k.subkeys[i]?).any fun c => !c.isVolatile && c.visible p

section
variable {k n c : Key} {p : Pos} {f : Key → Key}

theorem Key.visible_append (q : Pos) (h : k.get? p = some n) :
    k.visible (p ++ q) = (k.visible p && n.visible q) := by
  induction p generalizing k with
  | nil => cases h; rfl
  | cons i p ih =>
    simp only [Key.get?, bind_eq_some_iff] at h
    obtain ⟨c, hc, h⟩ := h
    simp [Key.visible, hc, ih h, Bool.and_assoc]

theorem Key.isVolatile_modifyAt (h : k.get? p = some n) (hf : (f n).isVolatile = n.isVolatile) :
    (k.modifyAt f p).isVolatile = k.isVolatile := by
  cases p with
  | nil => cases h; exact hf
  | cons i p => rfl

theorem Key.name_modifyAt (h : k.get? p = some n) (hf : (f n).name = n.name) :
    (k.modifyAt f p).name = k.name := by
  cases p with
  | nil => cases h; exact hf
  | cons i p => rfl

theorem Key.get?_modifyAt (h : k.get? p = some n) : (k.modifyAt f p).get? p = some (f n) := by
  induction p generalizing k with
  | nil => cases h; rfl
  | cons i p ih =>
    simp only [Key.get?, bind_eq_some_iff] at h
    obtain ⟨c, hc, h⟩ := h
    obtain ⟨l₁, l₂, hsub, rfl⟩ := eq_append_of_getElem? hc
    simp [Key.get?, Key.modifyAt, hsub, ih h]

theorem Key.namesTo_append (q : Pos) (h : k.get? p = some n) :
    k.namesTo (p ++ q) = k.namesTo p ++ n.namesTo q := by
  induction p generalizing k with
  | nil => cases h; rfl
  | cons i p ih =>
    simp only [Key.get?, bind_eq_some_iff] at h
    obtain ⟨c, hc, h⟩ := h
    simp [Key.namesTo, hc, ih h]

theorem Key.namesTo_modifyAt (h : k.get? p = some n) (hf : (f n).name = n.name) :
    (k.modifyAt f p).namesTo p = k.namesTo p := by
  induction p generalizing k with
  | nil => rfl
  | cons i p ih =>
    simp only [Key.get?, bind_eq_some_iff] at h
    obtain ⟨c, hc, h⟩ := h
    obtain ⟨l₁, l₂, hsub, rfl⟩ := eq_append_of_getElem? hc
    simp only [Key.namesTo, Key.modifyAt, hsub, modify_append_cons, getElem?_append_cons, ih h,
      Key.name_modifyAt h hf]

theorem Key.length_namesTo (h : k.get? p = some n) : (k.namesTo p).length = p.length := by
  induction p generalizing k with
  | nil => rfl
  | cons i p ih =>
    simp only [Key.get?, bind_eq_some_iff] at h
    obtain ⟨c, hc, h⟩ := h
    simp [Key.namesTo, hc, ih h]

theorem Key.image_modifyAt_of_eq (h : k.get? p = some n) (hvol : (f n).isVolatile = n.isVolatile)
    (himage : k.visible p = true → (f n).image = n.image) : (k.modifyAt f p).image = k.image := by
  induction p generalizing k with
  | nil => cases h; exact himage rfl
  | cons i p ih =>
    simp only [Key.get?, bind_eq_some_iff] at h
    obtain ⟨c, hc, h⟩ := h
    obtain ⟨l₁, l₂, hsub, rfl⟩ := eq_append_of_getElem? hc
    have hcvol := Key.isVolatile_modifyAt h hvol
    have hkeep : keepImage (c.modifyAt f p) = keepImage c := by
      cases hv : c.isVolatile with
      | true => rw [keepImage_of_volatile hv, keepImage_of_volatile (hcvol.trans hv)]
      | false =>
        rw [keepImage_of_stable hv, keepImage_of_stable (hcvol.trans hv),
          ih h fun hp => himage (by simp [Key.visible, hsub, hv, hp])]
    rw [Key.image_eq, Key.image_eq]
    simp only [Key.modifyAt, hsub, modify_append_cons, filterMap_append, filterMap_cons,
      hkeep]

variable {m : Nat}

theorem Key.updatePath_image (hok : k.Ok m) (h : k.get? p = some n)
    (hvis : k.visible p = true) (hvol : (f n).isVolatile = n.isVolatile) {g : Key → Option Key}
    (hg : g n.image = some (f n).image) :
    k.image.updatePath (k.namesTo p) g = some (k.modifyAt f p).image := by
  induction p generalizing k m with
  | nil => cases h; exact hg
  | cons i p ih =>
    simp only [Key.get?, bind_eq_some_iff] at h
    obtain ⟨c, hc, h⟩ := h
    obtain ⟨l₁, l₂, hsub, rfl⟩ := eq_append_of_getElem? hc
    have hcv : c.isVolatile = false ∧ c.visible p = true := by
      simpa [Key.visible, hsub] using hvis
    obtain ⟨hv, hp⟩ := hcv
    cases hok with
    | mk _ _ hsorted _ hbelow =>
      have hcok := hbelow c (by simp [hsub]) hv
      have hmod : (c.modifyAt f p).isVolatile = false := (Key.isVolatile_modifyAt h hvol).trans hv
      -- the siblings in front have other names, so the path goes through `c`
      have hfront : ∀ a ∈ l₁.filterMap keepImage, rtlEqualUnicodeString a.name c.name = false := by
        intro a ha
        obtain ⟨b, hb, hba⟩ := mem_filterMap.mp ha
        rw [keepImage_name hba]
        rw [hsub] at hsorted
        exact Before.not_equal ((pairwise_append.mp hsorted).2.2 b hb c mem_cons_self)
      have hself : rtlEqualUnicodeString c.image.name c.name = true := by
        rw [Key.image_name]; exact rtlEqualUnicodeString_self _
      have himg : k.image.subkeys =
          l₁.filterMap keepImage ++ c.image :: l₂.filterMap keepImage := by
        rw [Key.image_eq]
        simp only [hsub, filterMap_append, filterMap_cons, keepImage_of_stable hv]
      rw [Key.namesTo]
      simp only [hsub, getElem?_append_cons]
      rw [Key.updatePath, himg, updateFirst_append hfront hself, ih hcok h hp]
      have hafter : (l₁ ++ c.modifyAt f p :: l₂).filterMap keepImage =
          l₁.filterMap keepImage ++ (c.modifyAt f p).image :: l₂.filterMap keepImage := by
        rw [filterMap_append, filterMap_cons_some (keepImage_of_stable hmod)]
      simp only [map_some, Key.modifyAt, hsub, modify_append_cons]
      rw [Key.image_eq { k with subkeys := _ }, Key.image_eq k, hafter]

theorem Key.Ok.get? (hok : k.Ok m) (h : k.get? p = some n) (hvis : k.visible p = true) :
    ∃ j, m = j + p.length ∧ n.Ok j := by
  induction p generalizing k m with
  | nil => cases h; exact ⟨m, rfl, hok⟩
  | cons i p ih =>
    simp only [Key.get?, bind_eq_some_iff] at h
    obtain ⟨c, hc, h⟩ := h
    have hcv : c.isVolatile = false ∧ c.visible p = true := by
      simpa [Key.visible, hc] using hvis
    cases hok with
    | mk _ _ _ _ hbelow =>
      obtain ⟨j, rfl, hj⟩ := ih (hbelow c (mem_of_getElem? hc) hcv.1) h hcv.2
      exact ⟨j, by rw [length_cons]; omega, hj⟩

theorem Key.Ok.modifyAt {m : Nat} (hok : k.Ok m) (h : k.get? p = some n)
    (hname : (f n).name = n.name) (hvol : (f n).isVolatile = n.isVolatile)
    (hf : k.visible p = true → ∀ j, m = j + p.length → n.Ok j → (f n).Ok j) :
    (k.modifyAt f p).Ok m := by
  induction p generalizing k m with
  | nil => cases h; exact hf rfl m rfl hok
  | cons i p ih =>
    simp only [Key.get?, bind_eq_some_iff] at h
    obtain ⟨c, hc, h⟩ := h
    obtain ⟨l₁, l₂, hsub, rfl⟩ := eq_append_of_getElem? hc
    have hcname := Key.name_modifyAt h hname
    have hcvol := Key.isVolatile_modifyAt h hvol
    cases hok with
    | @mk m _ h1 h2 hsorted hvalid hbelow =>
      rw [hsub] at hsorted hvalid hbelow
      have hsubs : (k.modifyAt f (l₁.length :: p)).subkeys = l₁ ++ c.modifyAt f p :: l₂ := by
        simp [Key.modifyAt, hsub]
      refine .mk h1 h2 ?_ ?_ ?_
      · rw [hsubs]
        simpa [pairwise_append, KeyBefore, hcname] using hsorted
      · intro d hd
        rw [hsubs] at hd
        rcases mem_append.mp hd with hd | hd
        · exact hvalid d (by simp [hd])
        rcases mem_cons.mp hd with rfl | hd
        · rw [hcname]; exact hvalid c (by simp)
        · exact hvalid d (by simp [hd])
      · intro d hd hdvol
        rw [hsubs] at hd
        rcases mem_append.mp hd with hd | hd
        · exact hbelow d (by simp [hd]) hdvol
        rcases mem_cons.mp hd with rfl | hd
        · have hcv : c.isVolatile = false := hcvol ▸ hdvol
          refine ih (hbelow c (by simp) hcv) h fun hp j hj hjok => ?_
          exact hf (by simp [Key.visible, hsub, hcv, hp]) j
            (by rw [length_cons]; omega) hjok
        · exact hbelow d (by simp [hd]) hdvol

theorem Key.Ok.namesTo_valid (hok : k.Ok m) (h : k.get? p = some n)
    (hvis : k.visible p = true) : ∀ name ∈ k.namesTo p, ValidName name := by
  induction p generalizing k m with
  | nil => intro name hn; cases hn
  | cons i p ih =>
    simp only [Key.get?, bind_eq_some_iff] at h
    obtain ⟨c, hc, h⟩ := h
    have hcv : c.isVolatile = false ∧ c.visible p = true := by
      simpa [Key.visible, hc] using hvis
    cases hok with
    | mk _ _ _ hvalid hbelow =>
      have hmem := mem_of_getElem? hc
      intro name hn
      rw [Key.namesTo, hc] at hn
      rcases mem_cons.mp hn with rfl | hn
      · exact hvalid c hmem
      · exact ih (hbelow c hmem hcv.1) h hcv.2 name hn

end

section
variable {k c : Key} {l₁ l₂ : List Key}

theorem Key.image_congr {a b : Key} (hname : a.name = b.name) (hvalues : a.values = b.values)
    (hlink : a.isLink = b.isLink)
    (hsub : a.subkeys.filterMap keepImage = b.subkeys.filterMap keepImage) : a.image = b.image := by
  rw [Key.image_eq, Key.image_eq, hname, hvalues, hlink, hsub]

theorem KeyBefore.trans (a b c : Key) (h1 : KeyBefore a b) (h2 : KeyBefore b c) : KeyBefore a c :=
  Before.trans h1 h2

theorem filterMap_keepImage_link (hsorted : l₁.Pairwise KeyBefore) (c : Key) :
    (cmpLinkSubkeySorted l₁ c).filterMap keepImage =
      (keepImage c).elim (l₁.filterMap keepImage)
        (cmpLinkSubkeySorted (l₁.filterMap keepImage)) := by
  refine filterMap_orderedInsert (s := KeyBefore) KeyBefore.trans hsorted ?_
  intro b _ x y hx hy
  rw [KeyBefore, KeyBefore, keepImage_name hx, keepImage_name hy]

variable {name newName : WStr} {now : UInt64} {m : Nat}

theorem cmpFindSubkey_image_eq_none (h : cmpFindSubkey k name = none) :
    cmpFindSubkey k.image name = none := by
  rw [cmpFindSubkey_eq_none_iff] at h ⊢
  intro d hd
  rw [Key.image_eq] at hd
  obtain ⟨c, hc, hcd⟩ := mem_filterMap.mp hd
  rw [keepImage_name hcd]
  exact h c hc

theorem cmpFindSubkey_image (hsorted : k.subkeys.Pairwise KeyBefore)
    (hsub : k.subkeys = l₁ ++ c :: l₂) (hvol : c.isVolatile = false) :
    k.image.subkeys = l₁.filterMap keepImage ++ c.image :: l₂.filterMap keepImage ∧
      cmpFindSubkey k.image c.name = some (l₁.filterMap keepImage).length := by
  have himg : k.image.subkeys = l₁.filterMap keepImage ++ c.image :: l₂.filterMap keepImage := by
    rw [Key.image_eq]
    simp only [hsub, filterMap_append, filterMap_cons, keepImage_of_stable hvol]
  refine ⟨himg, cmpFindSubkey_eq_some_iff.mpr ⟨_, _, _, himg, rfl, ?_, ?_⟩⟩
  · rw [Key.image_name]; exact rtlEqualUnicodeString_self _
  · intro a ha
    obtain ⟨b, hb, hba⟩ := mem_filterMap.mp ha
    rw [keepImage_name hba]
    rw [hsub] at hsorted
    exact Before.not_equal ((pairwise_append.mp hsorted).2.2 b hb c mem_cons_self)

theorem addChild_image_of_volatile (hsorted : k.subkeys.Pairwise KeyBefore)
    (hvol : c.isVolatile = true) : (addChild now c k).image = k.image := by
  refine Key.image_congr rfl rfl rfl ?_
  rw [addChild, filterMap_keepImage_link hsorted, keepImage_of_volatile hvol, elim_none]

theorem createChild_image {time : UInt64} {link : Bool} {depth : Nat}
    (hsorted : k.subkeys.Pairwise KeyBefore) (hfind : cmpFindSubkey k name = none)
    (hdepth : depth < cmpHiveMaxDepth) :
    createChild 0 link depth name k.image =
      some (addChild now (createdKey time name false link) k).image := by
  rw [createChild, cmpFindSubkey_image_eq_none hfind]
  simp only [if_neg (Nat.not_le.mpr hdepth)]
  rw [Key.image_eq, Key.image_eq, addChild, filterMap_keepImage_link hsorted,
    keepImage_of_stable rfl]
  rfl

theorem before_of_find_none (hfind : cmpFindSubkey k name = none) :
    ∀ b ∈ k.subkeys, Before name b.name ∨ Before b.name name := by
  intro b hb
  have := cmpFindSubkey_eq_none_iff.mp hfind b hb
  exact (before_or_before this).symm

theorem addChild_ok (hok : k.Ok m) (hname : ValidName c.name)
    (hfind : cmpFindSubkey k c.name = none) (hc : c.isVolatile = false → ∃ j, m = j + 1 ∧ c.Ok j) :
    (addChild now c k).Ok m := by
  cases hok with
  | @mk m _ h1 h2 hsorted hvalid hbelow =>
    have hmem : ∀ d ∈ cmpLinkSubkeySorted k.subkeys c, d = c ∨ d ∈ k.subkeys := fun d hd =>
      (mem_orderedInsert KeyBefore).mp hd
    refine .mk h1 h2 ?_ ?_ ?_
    · exact pairwise_orderedInsert KeyBefore.trans hsorted
        (before_of_find_none hfind)
    · intro d hd
      rcases hmem d hd with rfl | hd
      · exact hname
      · exact hvalid d hd
    · intro d hd hvol
      rcases hmem d hd with rfl | hd
      · obtain ⟨j, hj, hcok⟩ := hc hvol
        cases hj
        exact hcok
      · exact hbelow d hd hvol

theorem removeChild_image_of_volatile (hsub : k.subkeys = l₁ ++ c :: l₂)
    (hvol : c.isVolatile = true) : (removeChild now l₁.length k).image = k.image := by
  refine Key.image_congr rfl rfl rfl ?_
  simp only [removeChild, hsub, eraseIdx_append_cons, filterMap_append, filterMap_cons,
    keepImage_of_volatile hvol]

theorem deleteChild_image (hsorted : k.subkeys.Pairwise KeyBefore)
    (hsub : k.subkeys = l₁ ++ c :: l₂) (hvol : c.isVolatile = false) (hleaf : c.subkeys = []) :
    deleteChild 0 c.name k.image = some (removeChild now l₁.length k).image := by
  obtain ⟨himg, hfind⟩ := cmpFindSubkey_image hsorted hsub hvol
  have hempty : c.image.subkeys = [] := by rw [Key.image_eq, hleaf]; rfl
  rw [deleteChild, hfind, bind_some, himg, getElem?_append_cons, bind_some,
    if_pos hempty, eraseIdx_append_cons, Key.image_eq, Key.image_eq, removeChild, hsub]
  simp only [eraseIdx_append_cons, filterMap_append]

theorem removeChild_ok (hok : k.Ok m) (hsub : k.subkeys = l₁ ++ c :: l₂) :
    (removeChild now l₁.length k).Ok m := by
  cases hok with
  | mk h1 h2 hsorted hvalid hbelow =>
    have hlist : (removeChild now l₁.length k).subkeys = l₁ ++ l₂ := by
      simp [removeChild, hsub]
    have hsublist : (l₁ ++ l₂).Sublist k.subkeys := by
      rw [hsub]; exact Sublist.append_left (sublist_cons_self _ _) _
    refine .mk h1 h2 ?_ ?_ ?_
    · rw [hlist]; exact hsorted.sublist hsublist
    · intro d hd
      exact hvalid d (hsublist.subset (hlist ▸ hd))
    · intro d hd
      exact hbelow d (hsublist.subset (hlist ▸ hd))

/-! ### A renamed subkey -/

def renamed (now : UInt64) (newName : WStr) (c : Key) : Key :=
  { c with lastWriteTime := now, name := newName }

theorem renameAt_eq (hsub : k.subkeys = l₁ ++ c :: l₂) :
    renameAt now l₁.length newName k =
      { k with subkeys := cmpLinkSubkeySorted (l₁ ++ l₂) (renamed now newName c) } := by
  simp [renameAt, cmpRenameNode, hsub, renamed]

theorem renamed_image (now : UInt64) (newName : WStr) :
    (renamed now newName c).image = { c.image with name := newName } := by
  rw [Key.image_eq, Key.image_eq]; rfl

section
variable (hsorted : k.subkeys.Pairwise KeyBefore) (hsub : k.subkeys = l₁ ++ c :: l₂)
include hsorted hsub

theorem sorted_without :
    (l₁ ++ l₂).Pairwise KeyBefore := by
  rw [hsub] at hsorted
  exact hsorted.sublist (Sublist.append_left (sublist_cons_self _ _) _)

theorem renameAt_image_of_volatile
    (hvol : c.isVolatile = true) : (renameAt now l₁.length newName k).image = k.image := by
  rw [renameAt_eq hsub]
  refine Key.image_congr rfl rfl rfl ?_
  rw [filterMap_keepImage_link (sorted_without hsorted hsub), keepImage_of_volatile (by exact hvol)]
  simp only [hsub, filterMap_append, filterMap_cons, keepImage_of_volatile hvol,
    elim_none]

theorem renameChild_image (hvol : c.isVolatile = false) :
    renameChild 0 c.name newName k.image = some (renameAt now l₁.length newName k).image := by
  obtain ⟨himg, hfind⟩ := cmpFindSubkey_image hsorted hsub hvol
  have hcv : (renamed now newName c).isVolatile = false := hvol
  have himage0 : { c.image with lastWriteTime := 0 } = c.image := by rw [Key.image_eq]
  rw [renameChild, hfind, map_some]
  simp only [cmpRenameNode, himg, modify_append_cons, getElem?_append_cons, eraseIdx_append_cons,
    himage0]
  rw [renameAt_eq hsub, Key.image_eq { k with subkeys := _ }, Key.image_eq k]
  simp only [filterMap_keepImage_link (sorted_without hsorted hsub), keepImage_of_stable hcv,
    renamed_image, filterMap_append, elim_some]

end

theorem renameAt_ok (hok : k.Ok m) (hsub : k.subkeys = l₁ ++ c :: l₂) (hname : ValidName newName)
    (hfind : cmpFindSubkey k newName = none) : (renameAt now l₁.length newName k).Ok m := by
  have hbefore := before_of_find_none hfind
  rw [renameAt_eq hsub]
  cases hok with
  | @mk m _ h1 h2 hsorted hvalid hbelow =>
    have hsublist : (l₁ ++ l₂).Sublist k.subkeys := by
      rw [hsub]; exact Sublist.append_left (sublist_cons_self _ _) _
    have hmem : ∀ d ∈ cmpLinkSubkeySorted (l₁ ++ l₂) (renamed now newName c),
        d = renamed now newName c ∨ d ∈ k.subkeys := fun d hd =>
      ((mem_orderedInsert KeyBefore).mp hd).imp_right fun hd => hsublist.subset hd
    refine .mk h1 h2 ?_ ?_ ?_
    · exact pairwise_orderedInsert KeyBefore.trans
        (sorted_without hsorted hsub) fun b hb => hbefore b (hsublist.subset hb)
    · intro d hd
      rcases hmem d hd with rfl | hd
      · exact hname
      · exact hvalid d hd
    · intro d hd hvol
      rcases hmem d hd with rfl | hd
      · cases hbelow c (by simp [hsub]) hvol with
        | mk g1 g2 g3 g4 g5 => exact .mk g1 g2 g3 g4 g5
      · exact hbelow d hd hvol

/-! ### Values -/

theorem ValueBefore.trans (a b c : Value) (h1 : ValueBefore a b) (h2 : ValueBefore b c) :
    ValueBefore a c :=
  Before.trans h1 h2

theorem findIdx?_congr {values : List Value} {name' : WStr}
    (h : rtlEqualUnicodeString name name' = true) :
    values.findIdx? (fun v => rtlEqualUnicodeString v.name name) =
      values.findIdx? (fun v => rtlEqualUnicodeString v.name name') := by
  have hfold := rtlEqualUnicodeString_iff.mp h
  congr 1
  funext v
  rw [Bool.eq_iff_iff, rtlEqualUnicodeString_iff, rtlEqualUnicodeString_iff, hfold]

/-- The value `NtSetValueKey` logs: the one just set, under the name it is bound to, and setting it
under that name is setting it under the caller's. -/
theorem exists_written (node : Key) (name : WStr) (type : UInt32) (data : List UInt8) :
    ∃ v, cmpFindValue (cmpSetValue node name type data) name = some v ∧ v.type = type ∧
      v.data = data ∧ setValueIn node.values v.name type data = setValueIn node.values name type data ∧
      (v.name = name ∨ ∃ u ∈ node.values, v.name = u.name) := by
  cases hfind : node.values.findIdx? (fun v => rtlEqualUnicodeString v.name name) with
  | some i =>
    obtain ⟨l₁, u, l₂, hvalues, rfl, hu, h₁⟩ := findIdx?_eq_some_iff_append.mp hfind
    refine ⟨{ u with type, data }, ?_, rfl, rfl, ?_, .inr ⟨u, by simp [hvalues], rfl⟩⟩
    · have hnone : l₁.find? (fun v => rtlEqualUnicodeString v.name name) = none :=
        find?_eq_none.mpr fun a ha => by simp [h₁ a ha]
      have hset : (cmpSetValue node name type data).values = l₁ ++ { u with type, data } :: l₂ := by
        simp only [cmpSetValue, setValueIn, hfind]
        rw [hvalues, modify_append_cons]
      rw [cmpFindValue, hset, find?_append, hnone, none_or, find?_cons_of_pos]
      exact hu
    · rw [setValueIn, setValueIn, findIdx?_congr hu, hfind]
  | none =>
    have hset : (cmpSetValue node name type data).values =
        node.values.orderedInsert ValueBefore { name, type, data } := by
      simp [cmpSetValue, setValueIn, hfind]
    have hsome : (cmpFindValue (cmpSetValue node name type data) name).isSome := by
      rw [cmpFindValue, hset, List.find?_isSome]
      exact ⟨_, (mem_orderedInsert _).mpr (.inl rfl), rtlEqualUnicodeString_self name⟩
    obtain ⟨v, hv⟩ := isSome_iff_exists.mp hsome
    have hmem : v = { name, type, data } ∨ v ∈ node.values := by
      rw [cmpFindValue, hset] at hv
      exact (mem_orderedInsert _).mp (mem_of_find?_eq_some hv)
    rcases hmem with rfl | hmem
    · exact ⟨_, hv, rfl, rfl, rfl, .inl rfl⟩
    · have heq := find?_some hv
      rw [findIdx?_eq_none_iff] at hfind
      rw [hfind v hmem] at heq
      cases heq

theorem setValueIn_ok {values : List Value} {type : UInt32} {data : List UInt8}
    (hsorted : values.Pairwise ValueBefore) (hnames : ∀ v ∈ values, v.name.length ≤ 16383)
    (hname : name.length ≤ 16383) :
    (setValueIn values name type data).Pairwise ValueBefore ∧
      ∀ v ∈ setValueIn values name type data, v.name.length ≤ 16383 := by
  rw [setValueIn]
  split
  · rename_i i hi
    obtain ⟨l₁, u, l₂, rfl, rfl, -, -⟩ := findIdx?_eq_some_iff_append.mp hi
    rw [modify_append_cons]
    refine ⟨?_, ?_⟩
    · simpa [pairwise_append, ValueBefore] using hsorted
    · intro v hv
      rcases mem_append.mp hv with hv | hv
      · exact hnames v (by simp [hv])
      rcases mem_cons.mp hv with rfl | hv
      · exact hnames u (by simp)
      · exact hnames v (by simp [hv])
  · rename_i hi
    rw [findIdx?_eq_none_iff] at hi
    refine ⟨pairwise_orderedInsert ValueBefore.trans hsorted ?_, ?_⟩
    · exact fun v hv => (before_or_before (hi v hv)).symm
    · intro v hv
      rcases (mem_orderedInsert _).mp hv with rfl | hv
      · exact hname
      · exact hnames v hv

theorem setStamped_ok {type : UInt32} {data : List UInt8}
    (hok : k.Ok m) (hname : name.length ≤ 16383) : (setStamped now name type data k).Ok m := by
  cases hok with
  | mk h1 h2 h3 h4 h5 =>
    obtain ⟨hs, hn⟩ := setValueIn_ok h1 h2 hname
    exact .mk hs hn h3 h4 h5

theorem removeStamped_ok (hok : k.Ok m) :
    (removeStamped now name k).Ok m := by
  cases hok with
  | mk h1 h2 h3 h4 h5 =>
    rw [removeStamped, cmpRemoveValue]
    split
    · exact .mk (h1.sublist (eraseIdx_sublist _ _))
        (fun v hv => h2 v (mem_of_mem_eraseIdx hv)) h3 h4 h5
    · exact .mk h1 h2 h3 h4 h5

theorem Key.Ok.restamp {time : UInt64} {bodies : Nat} (hok : k.Ok m) :
    Key.Ok m { k with lastWriteTime := time, bodyCount := bodies } := by
  cases hok with
  | mk h1 h2 h3 h4 h5 => exact .mk h1 h2 h3 h4 h5

end

/-! ## Replaying without the times -/

theorem Key.updatePath_untimed {names : List WStr} {g g₀ : Key → Option Key}
    (h : ∀ k, (g k).map Key.untimed = g₀ k.untimed) (k : Key) :
    (k.updatePath names g).map Key.untimed = k.untimed.updatePath names g₀ := by
  induction names generalizing k with
  | nil => exact h k
  | cons name names ih =>
    have hlist := @updateFirst_map _ _ (fun x : Key => rtlEqualUnicodeString x.name name)
      (fun x => rtlEqualUnicodeString x.name name) _ _ Key.untimed
      (fun a => by rw [Key.untimed_name]) ih k.subkeys
    rw [Key.updatePath, Key.updatePath, Key.untimed_eq k]
    simp only [← hlist, Option.map_map]
    congr 1
    funext subkeys
    simp [Key.untimed_eq]

theorem cmpSetValue_untimed (k : Key) (name : WStr) (type : UInt32) (data : List UInt8) :
    (cmpSetValue k name type data).untimed = cmpSetValue k.untimed name type data := by
  simp [cmpSetValue, Key.untimed_eq]

theorem setValues_untimed (stamp : UInt64) (values : List Value) (k : Key) :
    (setValues stamp values k).untimed = setValues 0 values k.untimed := by
  have hfold : ∀ k : Key, (values.foldl (fun node v => cmpSetValue node v.name v.type v.data)
      k).untimed = values.foldl (fun node v => cmpSetValue node v.name v.type v.data)
        k.untimed := by
    induction values with
    | nil => intro k; rfl
    | cons v values ih =>
      intro k
      rw [foldl_cons, foldl_cons, ih, cmpSetValue_untimed]
  rw [setValues, setValues, hfold]
  congr 1
  rw [Key.untimed_eq, Key.untimed_eq]

theorem cmpRemoveValue_untimed (stamp : UInt64) (name : WStr) (k : Key) :
    (cmpRemoveValue { k with lastWriteTime := stamp } name).map Key.untimed =
      cmpRemoveValue { k.untimed with lastWriteTime := 0 } name := by
  simp only [cmpRemoveValue, Key.untimed_eq k]
  split <;> simp [Key.untimed_eq]

theorem cmpFindSubkey_untimed (k : Key) (name : WStr) :
    cmpFindSubkey k.untimed name = cmpFindSubkey k name := by
  rw [cmpFindSubkey, Key.untimed_eq, findIdx?_map]
  congr 1
  funext c
  simp

theorem map_untimed_link (siblings : List Key) (node : Key) :
    (cmpLinkSubkeySorted siblings node).map Key.untimed =
      cmpLinkSubkeySorted (siblings.map Key.untimed) node.untimed :=
  map_orderedInsert KeyBefore KeyBefore Key.untimed siblings node
    (fun a _ => by simp [KeyBefore]) (by simp [KeyBefore])

theorem deleteChild_untimed (stamp : UInt64) (name : WStr) (k : Key) :
    (deleteChild stamp name k).map Key.untimed = deleteChild 0 name k.untimed := by
  rw [deleteChild, deleteChild, cmpFindSubkey_untimed]
  cases hfind : cmpFindSubkey k name with
  | none => rfl
  | some i =>
    obtain ⟨l₁, c, l₂, hsub, rfl, -, -⟩ := cmpFindSubkey_eq_some_iff.mp hfind
    have hlen : (l₁.map Key.untimed).length = l₁.length := length_map _
    simp only [bind_some, hsub, getElem?_append_cons, Key.untimed_eq k, map_append,
      map_cons, ← hlen, eraseIdx_append_cons]
    by_cases hleaf : c.subkeys = []
    · simp [hleaf, Key.untimed_eq]
    · simp [hleaf, Key.untimed_eq c]

theorem renameChild_untimed (stamp : UInt64) (name newName : WStr) (k : Key) :
    (renameChild stamp name newName k).map Key.untimed = renameChild 0 name newName k.untimed := by
  rw [renameChild, renameChild, cmpFindSubkey_untimed]
  cases hfind : cmpFindSubkey k name with
  | none => rfl
  | some i =>
    obtain ⟨l₁, c, l₂, hsub, rfl, -, -⟩ := cmpFindSubkey_eq_some_iff.mp hfind
    have hlen : (l₁.map Key.untimed).length = l₁.length := length_map _
    have hc : ({ c with lastWriteTime := stamp, name := newName } : Key).untimed =
        { c.untimed with lastWriteTime := 0, name := newName } := by
      rw [Key.untimed_eq, Key.untimed_eq]
    simp only [map_some, cmpRenameNode, hsub, modify_append_cons, getElem?_append_cons,
      eraseIdx_append_cons, Key.untimed_eq k, map_append, map_cons]
    rw [← hlen]
    simp only [modify_append_cons, getElem?_append_cons, eraseIdx_append_cons]
    rw [Key.untimed_eq { k with subkeys := _ }, map_untimed_link, hc, map_append]

theorem createChild_untimed (stamp : UInt64) (link : Bool) (depth : Nat) (name : WStr) (k : Key) :
    (createChild stamp link depth name k).map Key.untimed =
      createChild 0 link depth name k.untimed := by
  rw [createChild, createChild, cmpFindSubkey_untimed]
  cases hfind : cmpFindSubkey k name with
  | some i =>
    obtain ⟨l₁, c, l₂, hsub, rfl, -, -⟩ := cmpFindSubkey_eq_some_iff.mp hfind
    have hlen : (l₁.map Key.untimed).length = l₁.length := length_map _
    simp only [map_some, hsub, modify_append_cons, Key.untimed_eq k, map_append,
      map_cons]
    rw [← hlen]
    simp only [modify_append_cons]
    simp [Key.untimed_eq]
  | none =>
    by_cases hdepth : depth ≥ cmpHiveMaxDepth
    · simp [hdepth]
    · have hfresh : (freshKey stamp link name).untimed = freshKey 0 link name := rfl
      simp only [if_neg hdepth, map_some]
      rw [Key.untimed_eq { k with subkeys := _ }, map_untimed_link, hfresh, Key.untimed_eq k]

end Proskrnl.Cm
