import Proskrnl.Cm.Refine

/-!
# The services keep the log sound

One lemma for each service, then `step_inv` for a call and `Run.inv` for a run.
-/

namespace Proskrnl.Cm
open Bytes ListUpdate List Option

def Loggable (root : Key) (p : Pos) : Prop :=
  ∀ n, root.get? p = some n → n.isVolatile = false → root.visible p = true

/-- When a call keeps the log sound, as a condition on the call and the state before it: a key that
is logged has no volatile key above it, a key that is created to stay gets its handle, and an image
restored into a key of the log holds a well formed tree. -/
def StepOk (env : Env) (s : CmState) : Op → Prop
  | .createKey path options => options.isVolatile = false → ∀ p leaf n,
    cmpResolvePath env s.root path true (options.createLink || options.openLink) =
      .ok { parent := some p, leaf, found := none } →
    s.root.get? p = some n → n.isVolatile = false →
    s.root.visible p = true ∧ ntSuccess env.handle = true
  | .deleteKey (.key p) => Loggable s.root p
  | .renameKey (.key p) _ _ => Loggable s.root p
  | .setValueKey (.key p) _ _ _ => Loggable s.root p
  | .deleteValueKey (.key p) _ => Loggable s.root p
  | .setInformationKey (.key p) _ _ _ => Loggable s.root p
  | .restoreKey (.key p) file _ => s.root.visible p = true → ∀ image n, readImage file = .ok image →
    s.root.get? p = some n → ∀ j, cmpHiveMaxDepth = j + p.length →
    (graft (parseImage env (p.length + 1) (newNode env.now []) image).2 n).Ok j
  | _ => True

section
variable {env : Env} {s s' : CmState} {st : NtStatus} {p : Pos} {n : Key}

theorem Inv.of_eq (hs : Inv s) (hroot : s'.root = s.root) (hlog : s'.log = s.log) : Inv s' where
  named := hroot ▸ hs.named
  stable := hroot ▸ hs.stable
  ok := hroot ▸ hs.ok
  replays := by rw [hroot, hlog]; exact hs.replays

theorem Inv.names_length_le (hs : Inv s) (h : s.root.get? p = some n)
    (hvis : s.root.visible p = true) : (s.root.namesTo p).length < 96 := by
  obtain ⟨j, hj, hn⟩ := hs.ok.get? h hvis
  rw [Key.length_namesTo h]
  simp only [cmpHiveMaxDepth] at hj
  cases hn
  omega

theorem Inv.names_valid (hs : Inv s) (h : s.root.get? p = some n)
    (hvis : s.root.visible p = true) : ∀ m ∈ s.root.namesTo p, ValidName m :=
  hs.ok.namesTo_valid h hvis

variable {stamp now : UInt64} {tail : LogTail} {name : WStr} {k c : Key} {handle : KeyRef}
  {path : KeyPath}

theorem Inv.entry_fits (hs : Inv s) (h : s.root.get? p = some n) (hvis : s.root.visible p = true)
    {op keyFlags : UInt8}
    (hcap : (logEntry op keyFlags (s.root.namesTo p) stamp tail).encode.length ≤ cmpHiveMaxBytes) :
    (logEntry op keyFlags (s.root.namesTo p) stamp tail).Fits :=
  logEntry_fits (fun m hm => (hs.names_valid h hvis m hm).length_le)
    (Nat.le_of_lt (hs.names_length_le h hvis)) hcap

theorem Inv.childEntry_fits (hs : Inv s) (h : s.root.get? p = some n)
    (hvis : s.root.visible p = true) (hname : ValidName name) {op keyFlags : UInt8}
    (hcap : (logEntry op keyFlags (s.root.namesTo p ++ [name]) stamp tail).encode.length ≤
      cmpHiveMaxBytes) :
    (logEntry op keyFlags (s.root.namesTo p ++ [name]) stamp tail).Fits := by
  refine logEntry_fits (fun m hm => ?_) ?_ hcap
  · rcases mem_append.mp hm with hm | hm
    · exact (hs.names_valid h hvis m hm).length_le
    · rw [mem_singleton.mp hm]; exact hname.length_le
  · rw [length_append]
    exact hs.names_length_le h hvis

theorem Inv.restamp (hs : Inv s) (h : s.root.get? p = some n) (time : Key → UInt64)
    (bodies : Key → Nat) :
    Inv (s.modify p fun n => { n with lastWriteTime := time n, bodyCount := bodies n }) :=
  hs.modify h rfl rfl (fun _ => Key.image_congr rfl rfl rfl rfl) fun _ _ _ hn => hn.restamp

theorem Inv.addBody (hs : Inv s) (h : (s.root.get? p).isSome) : Inv (s.modify p addBody) := by
  obtain ⟨n, hn⟩ := isSome_iff_exists.mp h
  exact hs.restamp hn (fun n => n.lastWriteTime) fun n => n.bodyCount + 1

theorem modifyAt_of_get?_none {f : Key → Key} (h : k.get? p = none) :
    k.modifyAt f p = k := by
  induction p generalizing k with
  | nil => cases h
  | cons i p ih =>
    rw [Key.modifyAt]
    cases hc : k.subkeys[i]? with
    | none =>
      rw [modify_eq_self (List.getElem?_eq_none_iff.mp hc), Key.eta]
    | some c =>
      obtain ⟨l1, l2, hsub, rfl⟩ := eq_append_of_getElem? hc
      rw [Key.get?, hc, bind_some] at h
      rw [hsub, modify_append_cons, ih h, ← hsub, Key.eta]

theorem closeKeyBody_inv (hs : Inv s) (h : closeKeyBody handle s = (st, s')) :
    Inv s' := by
  cases handle with
  | deleted => cases h; exact hs
  | key p =>
    cases h
    cases hn : s.root.get? p with
    | none => exact hs.of_eq (modifyAt_of_get?_none hn) rfl
    | some n => exact hs.restamp hn (fun n => n.lastWriteTime) fun n => n.bodyCount - 1

theorem ntOpenKeyEx_inv {openLink access : Bool} (hs : Inv s)
    (h : ntOpenKeyEx env path openLink access s = (st, s')) : Inv s' := by
  rw [ntOpenKeyEx] at h
  split at h
  · cases h; exact hs
  split at h
  · cases h; exact hs
  · cases h; exact hs
  rename_i q hres
  split at h
  · cases h; exact hs
  split at h
  · cases h; exact hs
  cases h
  exact hs.addBody ((cmpResolvePath_good hres).found q rfl)

/-! ### NtCreateKey -/

theorem addChild_get? (h : k.get? p = some n) :
    (k.modifyAt (addChild now c) p).get? (p ++ [sortedIndex n.subkeys c.name]) = some c ∧
      (k.modifyAt (addChild now c) p).namesTo (p ++ [sortedIndex n.subkeys c.name]) =
        k.namesTo p ++ [c.name] := by
  obtain ⟨l1, l2, hsub, hlen, hins⟩ := link_eq_append n.subkeys c.name
  have hchild : (addChild now c n).subkeys[sortedIndex n.subkeys c.name]? = some c := by
    rw [addChild, hins c rfl, ← hlen, getElem?_append_cons]
  have hget := @Key.get?_modifyAt k n p (addChild now c) h
  constructor
  · rw [Key.get?_append, hget, bind_some, Key.get?, hchild]
    rfl
  · rw [Key.namesTo_append _ hget, Key.namesTo_modifyAt h rfl, Key.namesTo, hchild]
    rfl

theorem Inv.addVolatile (hs : Inv s) (h : s.root.get? p = some n)
    (hname : ValidName c.name) (hfind : cmpFindSubkey n c.name = none) (hvol : c.isVolatile = true) :
    Inv (s.modify p (addChild now c)) := by
  refine hs.modify h rfl rfl (fun hvis => ?_) fun _ j _ hn =>
    addChild_ok hn hname hfind fun hc => absurd (hvol.symm.trans hc) (by simp)
  obtain ⟨j, -, hn⟩ := hs.ok.get? h hvis
  cases hn with
  | mk _ _ hsorted _ _ => exact addChild_image_of_volatile hsorted hvol

theorem Inv.addStable (hs : Inv s) {time : UInt64} {link : Bool}
    (h : s.root.get? p = some n) (hvis : s.root.visible p = true) (hname : ValidName name)
    (hfind : cmpFindSubkey n name = none) (hdepth : p.length + 1 < cmpHiveMaxDepth)
    (hroot : s'.root = s.root.modifyAt (addChild now (createdKey time name false link)) p)
    (hcap : (logEntry cmpOpCreateKey (linkFlag link) (s.root.namesTo p ++ [name]) time
      .none).encode.length ≤ cmpHiveMaxBytes)
    (hlog : s'.log = s.log ++ (logEntry cmpOpCreateKey (linkFlag link)
      (s.root.namesTo p ++ [name]) time .none).encode) : Inv s' := by
  have hnames := hs.names_valid h hvis
  have hlen := Key.length_namesTo h
  simp only [cmpHiveMaxDepth] at hdepth
  obtain ⟨j, -, hn⟩ := hs.ok.get? h hvis
  cases hn with
  | mk _ _ hsorted _ _ =>
    refine hs.append h hvis rfl rfl (fun j hj hn => ?_) (hs.childEntry_fits h hvis hname hcap) _ _
      (createChild_untimed time link (1 + (s.root.namesTo p).length) name)
      (createChild_image hsorted hfind (by rw [hlen]; simp only [cmpHiveMaxDepth]; omega))
      (fun now t t' ht => cmpApplyRecord_createKey hname hnames rfl rfl rfl ht now) hroot hlog
    refine addChild_ok hn hname hfind fun _ => ?_
    simp only [cmpHiveMaxDepth] at hj
    obtain ⟨i, rfl⟩ : ∃ i, j = i + 2 := ⟨j - 2, by omega⟩
    refine ⟨i + 1, rfl, .mk ?_ ?_ ?_ ?_ ?_⟩ <;> simp [createdKey, newNode]

theorem ntCreateKey_inv {options : CreateOptions} (hs : Inv s)
    (hok : StepOk env s (.createKey path options))
    (h : ntCreateKey env path options s = (st, s')) (hlost : s'.lost = s.lost) : Inv s' := by
  rw [ntCreateKey] at h
  split at h
  · cases h; exact hs
  split at h
  · cases h; exact hs
  · rename_i hres
    split at h
    · cases h; exact hs
    split at h
    · cases h; exact hs
    split at h
    · cases h; exact hs
    cases h
    exact hs.addBody ((cmpResolvePath_good hres).found _ rfl)
  · cases h; exact hs
  rename_i p leaf hres
  obtain ⟨_, n, hparent, hn, hname, hfind⟩ := (cmpResolvePath_good hres).parent rfl
  cases hparent
  rw [hn] at h
  simp only at h hname hfind
  split at h
  · cases h; exact hs
  rename_i hstable
  split at h
  · cases h; exact hs
  rename_i hdepth
  split at h
  · cases h; exact hs
  cases hvol : n.isVolatile || options.isVolatile with
  | true =>
    rw [hvol] at h
    have hadd : Inv (s.modify p (addChild env.now (createdKey env.now leaf true
        options.createLink))) := hs.addVolatile hn hname hfind rfl
    split at h
    · cases h; exact hadd
    · cases h
      exact hadd.addBody (isSome_iff_exists.mpr ⟨_, (addChild_get? hn).1⟩)
  | false =>
    rw [hvol] at h
    obtain ⟨hpv, hov⟩ := Bool.or_eq_false_iff.mp hvol
    obtain ⟨hvis, hhandle⟩ := hok hov p leaf n hres hn hpv
    rw [if_neg (by simp [hhandle])] at h
    cases h
    -- the record first, then the body on the new key
    obtain ⟨hget, hpath⟩ := @addChild_get? p n env.now s.root
      (createdKey env.now leaf false options.createLink) hn
    have hbody := @Key.namesTo_modifyAt _ _ _ Cm.addBody hget rfl
    have hstable : ∀ s1 s2 : CmState,
        (if (createdKey env.now leaf false options.createLink).isVolatile then s1 else s2) = s2 :=
      fun s1 s2 => if_neg (by simp [createdKey])
    have hnamesTo : ((s.modify p (addChild env.now (createdKey env.now leaf false
        options.createLink))).modify (p ++ [sortedIndex n.subkeys leaf])
          Cm.addBody).root.namesTo (p ++ [sortedIndex n.subkeys leaf]) =
        s.root.namesTo p ++ [leaf] := hbody.trans hpath
    rw [hstable, cmpLogCreateKey, logPath, hnamesTo] at hlost ⊢
    obtain ⟨hcap, hlog⟩ := cmpLogRecord_kept hlost
    have hadd : Inv { s with
        root := s.root.modifyAt (addChild env.now (createdKey env.now leaf false
          options.createLink)) p
        log := s.log ++ (logEntry cmpOpCreateKey (linkFlag options.createLink)
          (s.root.namesTo p ++ [leaf]) env.now .none).encode } :=
      hs.addStable hn hvis hname hfind (by omega) rfl hcap rfl
    exact (hadd.addBody (isSome_iff_exists.mpr ⟨_, hget⟩)).of_eq cmpLogRecord_root hlog

/-! ### NtDeleteKey and NtRenameKey -/

theorem parent_of_get? {i : Nat} (h : k.get? p = some n) (hi : p.getLast? = some i) :
    ∃ parent l1 l2, p = p.dropLast ++ [i] ∧ k.get? p.dropLast = some parent ∧
      parent.subkeys = l1 ++ n :: l2 ∧ l1.length = i ∧
      k.visible p = (k.visible p.dropLast && !n.isVolatile) ∧
      k.namesTo p = k.namesTo p.dropLast ++ [n.name] := by
  obtain ⟨q, rfl⟩ : ∃ q, p = q ++ [i] := by
    obtain ⟨q, hq⟩ := getLast?_eq_some_iff.mp hi
    exact ⟨q, hq⟩
  rw [Key.get?_append] at h
  obtain ⟨parent, hparent, h⟩ := bind_eq_some_iff.mp h
  simp only [Key.get?, bind_eq_some_iff] at h
  obtain ⟨c, hc, hcn⟩ := h
  cases hcn
  obtain ⟨l1, l2, hsub, rfl⟩ := eq_append_of_getElem? hc
  refine ⟨parent, l1, l2, by simp, by simpa using hparent, hsub, rfl, ?_, ?_⟩
  · rw [dropLast_concat, Key.visible_append _ hparent]
    simp [Key.visible, hc]
  · rw [dropLast_concat, Key.namesTo_append _ hparent]
    simp [Key.namesTo, hc]

theorem cmpCaptureLogPath_some {root : Key} {path : WStr}
    (h : cmpCaptureLogPath env root p = some path) : path = cmpBuildPath (root.namesTo p) := by
  rw [cmpCaptureLogPath] at h
  split at h
  · cases h
  · cases h; rfl

theorem Inv.deleteStable (hs : Inv s) {l1 l2 : List Key}
    (h : s.root.get? p = some n) (hvis : s.root.visible p = true)
    (hsub : n.subkeys = l1 ++ c :: l2) (hvol : c.isVolatile = false) (hleaf : c.subkeys = [])
    (hroot : s'.root = s.root.modifyAt (removeChild now l1.length) p)
    (hcap : (logEntry cmpOpDeleteKey 0 (s.root.namesTo p ++ [c.name]) now .none).encode.length ≤
      cmpHiveMaxBytes)
    (hlog : s'.log =
      s.log ++ (logEntry cmpOpDeleteKey 0 (s.root.namesTo p ++ [c.name]) now .none).encode) :
    Inv s' := by
  have hnames := hs.names_valid h hvis
  obtain ⟨j, -, hn⟩ := hs.ok.get? h hvis
  cases hn with
  | mk _ _ hsorted hvalid _ =>
    have hname := hvalid c (by simp [hsub])
    exact hs.append h hvis rfl rfl (fun _ _ hn => removeChild_ok hn hsub)
      (hs.childEntry_fits h hvis hname hcap) _ _ (deleteChild_untimed now c.name)
      (deleteChild_image hsorted hsub hvol hleaf)
      (fun now t t' ht => cmpApplyRecord_deleteKey hname hnames rfl rfl ht now 1) hroot hlog

theorem readTailName_pad8 (h : name.length < 32768) :
    cmpReadTailName (pad8 (encodeTailName name)) = some name :=
  cmpReadTailName_encodeTailName h _

theorem Inv.renameStable (hs : Inv s) {l1 l2 : List Key} {newName : WStr}
    (h : s.root.get? p = some n) (hvis : s.root.visible p = true)
    (hsub : n.subkeys = l1 ++ c :: l2) (hvol : c.isVolatile = false) (hnew : ValidName newName)
    (hfind : cmpFindSubkey n newName = none)
    (hroot : s'.root = s.root.modifyAt (renameAt now l1.length newName) p)
    (hcap : (logEntry cmpOpRenameKey 0 (s.root.namesTo p ++ [c.name]) now
      (.name newName)).encode.length ≤ cmpHiveMaxBytes)
    (hlog : s'.log = s.log ++ (logEntry cmpOpRenameKey 0 (s.root.namesTo p ++ [c.name]) now
      (.name newName)).encode) : Inv s' := by
  have hnames := hs.names_valid h hvis
  have hhead : SameHead (renameAt now l1.length newName n) n := by
    rw [renameAt_eq hsub]; exact ⟨rfl, rfl⟩
  obtain ⟨j, -, hn⟩ := hs.ok.get? h hvis
  cases hn with
  | mk _ _ hsorted hvalid _ =>
    have hname := hvalid c (by simp [hsub])
    have htail : cmpReadTailName (logEntry cmpOpRenameKey 0 (s.root.namesTo p ++ [c.name]) now
        (.name newName)).record.tail = some newName :=
      readTailName_pad8 (by have := hnew.length_le; omega)
    exact hs.append h hvis hhead.1 hhead.2 (fun _ _ hn => renameAt_ok hn hsub hnew hfind)
      (hs.childEntry_fits h hvis hname hcap) _ _ (renameChild_untimed now c.name newName)
      (renameChild_image hsorted hsub hvol)
      (fun now t t' ht => cmpApplyRecord_renameKey hname hnames rfl rfl htail hnew.ne_nil ht now 1)
      hroot hlog

theorem ntDeleteKey_inv (hs : Inv s) (hok : StepOk env s (.deleteKey handle))
    (h : ntDeleteKey env handle s = (st, s')) (hlost : s'.lost = s.lost) : Inv s' := by
  unfold ntDeleteKey at h
  split at h
  · cases h; exact hs
  cases handle with
  | deleted => cases h; exact hs
  | key p =>
    simp only at h
    split at h
    · cases h; exact hs
    · cases h; exact hs
    rename_i node i hnode hi
    split at h
    · cases h; exact hs
    split at h
    · cases h; exact hs
    rename_i hleaf
    have hleaf : node.subkeys = [] := by simpa using hleaf
    obtain ⟨parent, l1, l2, hp, hparent, hsub, rfl, hvis, hnames⟩ := parent_of_get? hnode hi
    cases hvol : node.isVolatile with
    | true =>
      simp only [hvol, if_true] at h
      cases h
      refine hs.modify hparent rfl rfl (fun _ => removeChild_image_of_volatile hsub hvol)
        fun _ _ _ hn => removeChild_ok hn hsub
    | false =>
      have hv := hok node hnode hvol
      rw [hvis, Bool.and_eq_true] at hv
      simp only [hvol, Bool.false_eq_true, if_false] at h
      split at h
      · rename_i path hpath
        cases h
        rw [cmpLogDeleteKey, cmpCaptureLogPath_some hpath, hnames] at hlost ⊢
        obtain ⟨hcap, hlog⟩ := cmpLogRecord_kept hlost
        exact hs.deleteStable hparent hv.1 hsub hvol hleaf cmpLogRecord_root hcap hlog
      · cases h
        exact absurd hlost (Nat.succ_ne_self _)

theorem cmpReferenceKey_ok {root : Key} (h : cmpReferenceKey env root handle = .ok (p, n)) :
    handle = .key p ∧ root.get? p = some n := by
  unfold cmpReferenceKey at h
  split at h
  · cases h
  split at h
  · cases h
  split at h
  · rename_i hn
    cases h
    exact ⟨rfl, hn⟩
  · cases h

theorem ntRenameKey_inv {newName : WStr} {odd : Bool} (hs : Inv s)
    (hok : StepOk env s (.renameKey handle newName odd))
    (h : ntRenameKey env handle newName odd s = some (st, s')) (hlost : s'.lost = s.lost) :
    Inv s' := by
  rw [ntRenameKey] at h
  split at h
  · cases h; exact hs
  split at h
  · cases h; exact hs
  split at h
  · cases h; exact hs
  rename_i p node href
  obtain ⟨rfl, hnode⟩ := cmpReferenceKey_ok href
  split at h
  · cases h; exact hs
  rename_i hlen
  split at h
  · cases h; exact hs
  rename_i hsep
  split at h
  · rename_i i parent hi hparent
    obtain ⟨parent', l1, l2, hp, hparent', hsub, rfl, hvis, hnames⟩ := parent_of_get? hnode hi
    rw [hparent] at hparent'
    cases hparent'
    split at h
    · cases h; exact hs
    rename_i hfind
    have hfind : cmpFindSubkey parent newName = none := by simpa using hfind
    simp only at h
    split at h
    · cases h
    rename_i hne
    have hvalid' : ValidName newName := ⟨hne, by omega, hsep⟩
    have hhead : SameHead (renameAt env.now l1.length newName parent) parent := by
      rw [renameAt_eq hsub]; exact ⟨rfl, rfl⟩
    split at h
    · cases h; exact hs.of_eq rfl rfl
    cases hvol : node.isVolatile with
    | true =>
      simp only [hvol, if_true] at h
      cases h
      refine hs.modify hparent hhead.1 hhead.2 (fun hpv => ?_) fun _ _ _ hn =>
        renameAt_ok hn hsub hvalid' hfind
      obtain ⟨j, -, hn⟩ := hs.ok.get? hparent hpv
      cases hn with
      | mk _ _ hsorted _ _ => exact renameAt_image_of_volatile hsorted hsub hvol
    | false =>
      have hv := hok node hnode hvol
      rw [hvis, Bool.and_eq_true] at hv
      simp only [hvol, Bool.false_eq_true, if_false, Bool.false_or] at h
      split at h
      · rename_i path hpath
        cases h
        rw [hpath] at hlost ⊢
        simp only [isSome_some, if_true] at hlost ⊢
        rw [cmpLogRenameKey, cmpCaptureLogPath_some hpath, hnames] at hlost ⊢
        obtain ⟨hcap, hlog⟩ := cmpLogRecord_kept hlost
        exact hs.renameStable hparent hv.1 hsub hvol hvalid' hfind cmpLogRecord_root hcap hlog
      · rename_i hcapture
        cases h
        rw [hcapture] at hlost
        exact absurd hlost (by simp [CmState.modify])
  · cases h; exact hs

/-! ### Values and stamps -/

theorem Inv.not_visible (hs : Inv s) (h : s.root.get? p = some n) (hvol : n.isVolatile = true)
    {q : Prop} (hvis : s.root.visible p = true) : q := by
  exfalso
  cases hi : p.getLast? with
  | none =>
    cases getLast?_eq_none_iff.mp hi
    cases h
    exact absurd (hvol.symm.trans hs.stable) (by simp)
  | some i =>
    obtain ⟨_, _, _, _, _, _, _, hv, _⟩ := parent_of_get? h hi
    rw [hv, hvol] at hvis
    simp at hvis

theorem Inv.setStable (hs : Inv s) (values : List Value)
    {f : Key → Key} (h : s.root.get? p = some n) (hvis : s.root.visible p = true)
    (hhead : SameHead (f n) n) (hok : ∀ j, n.Ok j → (f n).Ok j)
    (hcount : tail.valueCount = values.length) (htail : tail.bytes = values.flatMap encodeValue)
    (hvalues : ∀ v ∈ values, v.name.length ≤ 16383)
    (himage : setValues 0 values n.image = (f n).image)
    (hroot : s'.root = s.root.modifyAt f p)
    (hcap : (logEntry cmpOpSetValues 0 (s.root.namesTo p) stamp tail).encode.length ≤
      cmpHiveMaxBytes)
    (hlog : s'.log = s.log ++
      (logEntry cmpOpSetValues 0 (s.root.namesTo p) stamp tail).encode) : Inv s' := by
  have hentry : logEntry cmpOpSetValues 0 (s.root.namesTo p) stamp tail =
      setEntry (s.root.namesTo p) stamp values := by
    rw [logEntry, setEntry, hcount, htail]
  have hfits := hs.entry_fits h hvis hcap
  rw [hentry] at hfits hlog
  have hv : ∀ v ∈ values, v.Fits := fun v hv =>
    Value.fits_of_mem hfits rfl hv (hvalues v hv)
  exact hs.append h hvis hhead.1 hhead.2 (fun j _ hn => hok j hn) hfits
    (fun k => some (setValues stamp values k)) (fun k => some (setValues 0 values k)) (fun k => by rw [map_some, setValues_untimed]) (by rw [himage])
    (fun now t t' ht => cmpApplyRecord_setEntry (hs.names_valid h hvis) hv ht now 1) hroot hlog

theorem ntSetValueKey_inv {type : UInt32} {data : List UInt8}
    (hs : Inv s) (hok : StepOk env s (.setValueKey handle name type data))
    (h : ntSetValueKey env handle name type data s = (st, s')) (hlost : s'.lost = s.lost) :
    Inv s' := by
  rw [ntSetValueKey] at h
  split at h
  · cases h; exact hs
  split at h
  · cases h; exact hs
  rename_i hlen
  have hlen : name.length ≤ 16383 := by omega
  split at h
  · cases h; exact hs
  rename_i p node href
  obtain ⟨rfl, hnode⟩ := cmpReferenceKey_ok href
  split at h
  · cases h; exact hs
  split at h
  · cases h; exact hs
  split at h
  · cases h; exact hs
  cases hvol : node.isVolatile with
  | true =>
    simp only [hvol, if_true] at h
    cases h
    exact hs.modify hnode rfl rfl (fun hvis => hs.not_visible hnode hvol hvis)
      fun _ _ _ hn => setStamped_ok hn hlen
  | false =>
    obtain ⟨v, hfind, htype, hdata, hset, hname⟩ := exists_written node name type data
    simp only [hvol, Bool.false_eq_true, if_false, hfind] at h
    cases h
    have hvis := hok node hnode hvol
    have hpath : (s.modify p (setStamped env.now name type data)).root.namesTo p =
        s.root.namesTo p := Key.namesTo_modifyAt hnode rfl
    rw [cmpLogSetValue, logPath, hpath] at hlost ⊢
    obtain ⟨hcap, hlog⟩ := cmpLogRecord_kept hlost
    obtain ⟨j, -, hn⟩ := hs.ok.get? hnode hvis
    refine hs.setStable [v] hnode hvis ⟨rfl, rfl⟩ (fun _ hn => setStamped_ok hn hlen)
      rfl (by simp [LogTail.bytes]) ?_ ?_ cmpLogRecord_root hcap hlog
    · intro u hu
      rw [mem_singleton.mp hu]
      cases hn with
      | mk _ hnames _ _ _ =>
        rcases hname with hname | ⟨w, hw, hname⟩
        · rw [hname]; exact hlen
        · rw [hname]; exact hnames w hw
    · rw [Key.image_eq, Key.image_eq]
      simp only [setValues, foldl_cons, foldl_nil, cmpSetValue, setStamped, htype, hdata,
        hset]

theorem ntDeleteValueKey_inv (hs : Inv s) (hok : StepOk env s (.deleteValueKey handle name))
    (h : ntDeleteValueKey env handle name s = (st, s')) (hlost : s'.lost = s.lost) : Inv s' := by
  rw [ntDeleteValueKey] at h
  split at h
  · cases h; exact hs
  split at h
  · cases h; exact hs
  rename_i hlen
  split at h
  · cases h; exact hs
  rename_i p node href
  obtain ⟨rfl, hnode⟩ := cmpReferenceKey_ok href
  split at h
  · cases h; exact hs
  rename_i hfound
  obtain ⟨removed, hremoved⟩ := ne_none_iff_exists'.mp (by simpa using hfound)
  have hhead : SameHead (removeStamped env.now name node) node := by
    rw [removeStamped, cmpRemoveValue]
    split <;> exact ⟨rfl, rfl⟩
  cases hvol : node.isVolatile with
  | true =>
    simp only [hvol, if_true] at h
    cases h
    exact hs.modify hnode hhead.1 hhead.2 (fun hvis => hs.not_visible hnode hvol hvis)
      fun _ _ _ hn => removeStamped_ok hn
  | false =>
    simp only [hvol, Bool.false_eq_true, if_false] at h
    cases h
    have hvis := hok node hnode hvol
    have hpath : (s.modify p (removeStamped env.now name)).root.namesTo p = s.root.namesTo p :=
      Key.namesTo_modifyAt hnode hhead.1
    rw [cmpLogDeleteValue, logPath, hpath] at hlost ⊢
    obtain ⟨hcap, hlog⟩ := cmpLogRecord_kept hlost
    have htail : cmpReadTailName (logEntry cmpOpDeleteValue 0 (s.root.namesTo p) env.now
        (.name name)).record.tail = some name := readTailName_pad8 (by omega)
    refine hs.append hnode hvis hhead.1 hhead.2 (fun _ _ hn => removeStamped_ok hn)
      (hs.entry_fits hnode hvis hcap) _
      (fun k => cmpRemoveValue { k with lastWriteTime := 0 } name)
      (cmpRemoveValue_untimed env.now name) ?_
      (fun now t t' ht =>
        cmpApplyRecord_deleteValue (hs.names_valid hnode hvis) rfl rfl htail ht now 1)
      cmpLogRecord_root hlog
    rw [cmpRemoveValue] at hremoved
    rw [Key.image_eq, Key.image_eq, removeStamped]
    simp only [cmpRemoveValue]
    split at hremoved
    · simp only [getD_some]
    · cases hremoved

theorem ntSetInformationKey_inv {infoClass : Int} {length : Nat}
    (hs : Inv s) (hok : StepOk env s (.setInformationKey handle infoClass length stamp))
    (h : ntSetInformationKey env handle infoClass length stamp s = (st, s'))
    (hlost : s'.lost = s.lost) : Inv s' := by
  rw [ntSetInformationKey] at h
  split at h
  · cases h; exact hs
  rename_i p node href
  obtain ⟨rfl, hnode⟩ := cmpReferenceKey_ok href
  split at h
  · cases h; exact hs
  split at h
  · cases h; exact hs
  split at h
  · cases h; exact hs
  cases hvol : node.isVolatile with
  | true =>
    simp only [hvol, if_true] at h
    cases h
    exact hs.restamp hnode (fun _ => stamp) fun n => n.bodyCount
  | false =>
    simp only [hvol, Bool.false_eq_true, if_false] at h
    cases h
    have hvis := hok node hnode hvol
    have hpath : (s.modify p (stampKey stamp)).root.namesTo p = s.root.namesTo p :=
      Key.namesTo_modifyAt hnode rfl
    rw [cmpLogTouchKey, logPath, hpath] at hlost ⊢
    obtain ⟨hcap, hlog⟩ := cmpLogRecord_kept hlost
    refine hs.setStable [] hnode hvis ⟨rfl, rfl⟩ (fun _ hn => hn.restamp) rfl rfl (by simp) ?_
      cmpLogRecord_root hcap hlog
    rw [Key.image_eq, Key.image_eq]
    rfl

/-! ### Hives -/

theorem ntLoadKey_inv {file : Except NtStatus (List UInt8)} (hs : Inv s)
    (h : ntLoadKey env path file s = (st, s')) : Inv s' := by
  rw [ntLoadKey] at h
  split at h
  · cases h; exact hs
  split at h
  · cases h; exact hs
  split at h
  · cases h; exact hs
  split at h
  · cases h; exact hs
  · cases h; exact hs
  · cases h; exact hs
  rename_i image _ _ p leaf hres
  obtain ⟨_, n, hparent, hn, hname, hfind⟩ := (cmpResolvePath_good hres).parent rfl
  cases hparent
  split at h
  · cases h; exact hs
  split at h
  · cases h; exact hs
  cases h
  obtain ⟨hleaf, hvol⟩ := parseImage_sameHead env (p.length + 2)
    { newNode env.now leaf with isVolatile := true } image
  exact hs.addVolatile hn (hleaf ▸ hname) (hleaf ▸ hfind) hvol

theorem ntUnloadKey_inv (hs : Inv s) (h : ntUnloadKey env path s = (st, s'))
    (hlost : s'.lost = s.lost) : Inv s' := by
  rw [ntUnloadKey] at h
  split at h
  · cases h; exact hs
  split at h
  · cases h; exact hs
  split at h
  · cases h; exact hs
  · cases h; exact hs
  rename_i p hres
  split at h
  · cases h; exact hs
  rename_i node hnode
  split at h
  · cases h; exact hs
  split at h
  · cases h; exact hs
  rename_i i hi
  split at h
  · cases h; exact hs
  obtain ⟨parent, l1, l2, hp, hparent, hsub, rfl, hvis, hnames⟩ := parent_of_get? hnode hi
  cases hvol : node.isVolatile with
  | true =>
    simp only [hvol, if_true] at h
    cases h
    exact hs.modify hparent rfl rfl (fun _ => removeChild_image_of_volatile hsub hvol)
      fun _ _ _ hn => removeChild_ok hn hsub
  | false =>
    simp only [hvol, Bool.false_eq_true, if_false] at h
    cases h
    exact Inv.rewrite ((Key.name_modifyAt hparent rfl).trans hs.named)
      ((Key.isVolatile_modifyAt hparent rfl).trans hs.stable)
      (hs.ok.modifyAt hparent rfl rfl fun _ _ _ hn => removeChild_ok hn hsub) hlost

theorem ntRestoreKey_inv {file : Except NtStatus (List UInt8)} {flags : UInt32}
    (hs : Inv s) (hok : StepOk env s (.restoreKey handle file flags))
    (h : ntRestoreKey env handle file flags s = (st, s')) (hlost : s'.lost = s.lost) : Inv s' := by
  rw [ntRestoreKey] at h
  split at h
  · cases h; exact hs
  rename_i p node href
  obtain ⟨rfl, hnode⟩ := cmpReferenceKey_ok href
  split at h
  · cases h; exact hs
  split at h
  · cases h; exact hs
  split at h
  · cases h; exact hs
  split at h
  · cases h; exact hs
  rename_i image himage
  split at h
  · cases h; exact hs
  simp only at h
  split at h
  · cases hvol : node.isVolatile with
    | true =>
      simp only [hvol, if_true] at h
      cases h
      exact hs.modify hnode rfl rfl (fun hvis => hs.not_visible hnode hvol hvis)
        fun hvis _ _ _ => hs.not_visible hnode hvol hvis
    | false =>
      simp only [hvol, Bool.false_eq_true, if_false] at h
      cases h
      exact Inv.rewrite ((Key.name_modifyAt hnode rfl).trans hs.named)
        ((Key.isVolatile_modifyAt hnode rfl).trans hs.stable)
        (hs.ok.modifyAt hnode rfl rfl fun hvis j hj _ => hok hvis image node himage hnode j hj) hlost
  · cases h; exact hs

/-- **One call.** A call that meets its condition and loses no record keeps the log sound. -/
theorem step_inv {op : Op} (hs : Inv s) (hok : StepOk env s op)
    (h : step env op s = some (st, s')) (hlost : s'.lost = s.lost) : Inv s' := by
  cases op with
  | createKey path options => exact ntCreateKey_inv hs hok (some.inj h) hlost
  | openKey path openLink access => exact ntOpenKeyEx_inv hs (some.inj h)
  | closeKey handle => exact closeKeyBody_inv hs (some.inj h)
  | deleteKey handle => exact ntDeleteKey_inv hs hok (some.inj h) hlost
  | renameKey handle newName odd => exact ntRenameKey_inv hs hok h hlost
  | setValueKey handle name type data => exact ntSetValueKey_inv hs hok (some.inj h) hlost
  | deleteValueKey handle name => exact ntDeleteValueKey_inv hs hok (some.inj h) hlost
  | setInformationKey handle infoClass length stamp =>
    exact ntSetInformationKey_inv hs hok (some.inj h) hlost
  | loadKey path file => exact ntLoadKey_inv hs (some.inj h)
  | unloadKey path => exact ntUnloadKey_inv hs (some.inj h) hlost
  | restoreKey handle file flags => exact ntRestoreKey_inv hs hok (some.inj h) hlost

end

end Proskrnl.Cm
