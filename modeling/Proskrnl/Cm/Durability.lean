import Proskrnl.Cm.Boot

/-!
# What survives a boot

`log_refines_tree`: from a boot whose tree has no key that stays below a volatile one, any run of
successful calls leaves a log that rebuilds the tree. The condition on the boot is needed: the last
run of the module starts from a hive that leaves such a key below `Hardware`.
-/

namespace Proskrnl.Cm
open Bytes ListUpdate List Option

/-- A run of calls, each of which meets a condition on what it is given and what it gives. -/
inductive Run (good : Env → CmState → Op → NtStatus → CmState → Prop) (s₀ : CmState) :
    CmState → Prop
  | refl : Run good s₀ s₀
  | step {s s' : CmState} {env : Env} {op : Op} {st : NtStatus} : Run good s₀ s →
    Cm.step env op s = some (st, s') → good env s op st s' → Run good s₀ s'

theorem Run.call {good : Env → CmState → Op → NtStatus → CmState → Prop} {s₀ s : CmState}
    (h : Run good s₀ s) (env : Env) (op : Op) {r : NtStatus × CmState}
    (hstep : Cm.step env op s = some r) (hgood : good env s op r.1 r.2) : Run good s₀ r.2 :=
  .step h hstep hgood

/-! ## Volatile keys all the way down -/

inductive Key.Closed : Key → Prop
  | mk {k : Key} : (∀ c ∈ k.subkeys, k.isVolatile = true → c.isVolatile = true) →
    (∀ c ∈ k.subkeys, c.Closed) → k.Closed

section
variable {k n c : Key} {p : Pos} {f : Key → Key}

theorem Key.Closed.subkeys (h : k.Closed) : ∀ c ∈ k.subkeys, c.Closed := by
  cases h with
  | mk _ h => exact h

theorem Key.Closed.volatile (h : k.Closed) :
    ∀ c ∈ k.subkeys, k.isVolatile = true → c.isVolatile = true := by
  cases h with
  | mk h _ => exact h

theorem Key.Closed.congr (h : k.Closed) (hvol : n.isVolatile = k.isVolatile)
    (hsub : n.subkeys = k.subkeys) : n.Closed := by
  refine .mk ?_ ?_
  · rw [hvol, hsub]; exact h.volatile
  · rw [hsub]; exact h.subkeys

theorem Key.Closed.get?_volatile (h : k.Closed) (hvol : k.isVolatile = true)
    (hn : k.get? p = some n) : n.isVolatile = true := by
  induction p generalizing k with
  | nil => cases hn; exact hvol
  | cons i p ih =>
    simp only [Key.get?, bind_eq_some_iff] at hn
    obtain ⟨c, hc, hn⟩ := hn
    have hmem := mem_of_getElem? hc
    exact ih (h.subkeys c hmem) (h.volatile c hmem hvol) hn

theorem Key.Closed.loggable (h : k.Closed) : Loggable k p := by
  intro n hn hvol
  induction p generalizing k with
  | nil => rfl
  | cons i p ih =>
    simp only [Key.get?, bind_eq_some_iff] at hn
    obtain ⟨c, hc, hn⟩ := hn
    have hclosed := h.subkeys c (mem_of_getElem? hc)
    have hcvol : c.isVolatile = false := by
      by_contra hcv
      exact absurd (hclosed.get?_volatile (by simpa using hcv) hn) (by simp [hvol])
    simp [Key.visible, hc, hcvol, ih hclosed hn]

theorem Key.Closed.modifyAt (h : k.Closed)
    (hf : ∀ n, k.get? p = some n → n.Closed → (f n).Closed ∧ (f n).isVolatile = n.isVolatile) :
    (k.modifyAt f p).Closed := by
  induction p generalizing k with
  | nil => exact (hf k rfl h).1
  | cons i p ih =>
    cases hc : k.subkeys[i]? with
    | none => rw [modifyAt_of_get?_none (by rw [Key.get?, hc]; rfl)]; exact h
    | some c =>
      obtain ⟨l₁, l₂, hsub, rfl⟩ := eq_append_of_getElem? hc
      have hmem : c ∈ k.subkeys := mem_of_getElem? hc
      have hf' : ∀ n, c.get? p = some n → n.Closed →
          (f n).Closed ∧ (f n).isVolatile = n.isVolatile := fun n hn =>
        hf n (by rw [Key.get?, hc]; exact hn)
      have hcvol : (c.modifyAt f p).isVolatile = c.isVolatile := by
        cases p with
        | nil => exact (hf' c rfl (h.subkeys c hmem)).2
        | cons => rfl
      have hsubs : (k.modifyAt f (l₁.length :: p)).subkeys = l₁ ++ c.modifyAt f p :: l₂ := by
        simp [Key.modifyAt, hsub]
      have hold : ∀ d, d ∈ l₁ ∨ d ∈ l₂ → d ∈ k.subkeys := by
        intro d hd
        rw [hsub]
        rcases hd with hd | hd <;> simp [hd]
      refine .mk ?_ ?_
      · intro d hd hvol
        rw [hsubs] at hd
        rcases mem_append.mp hd with hd | hd
        · exact h.volatile d (hold d (.inl hd)) hvol
        rcases mem_cons.mp hd with rfl | hd
        · rw [hcvol]; exact h.volatile c hmem hvol
        · exact h.volatile d (hold d (.inr hd)) hvol
      · intro d hd
        rw [hsubs] at hd
        rcases mem_append.mp hd with hd | hd
        · exact h.subkeys d (hold d (.inl hd))
        rcases mem_cons.mp hd with rfl | hd
        · exact ih (h.subkeys c hmem) hf'
        · exact h.subkeys d (hold d (.inr hd))

variable {now : UInt64}

theorem addChild_closed (h : k.Closed) (hc : c.Closed)
    (hvol : k.isVolatile = true → c.isVolatile = true) : (addChild now c k).Closed := by
  have hmem : ∀ d ∈ cmpLinkSubkeySorted k.subkeys c, d = c ∨ d ∈ k.subkeys := fun d hd =>
    (mem_orderedInsert KeyBefore).mp hd
  refine .mk ?_ ?_
  · intro d hd hk
    rcases hmem d hd with rfl | hd
    · exact hvol hk
    · exact h.volatile d hd hk
  · intro d hd
    rcases hmem d hd with rfl | hd
    · exact hc
    · exact h.subkeys d hd

theorem removeChild_closed {i : Nat} (h : k.Closed) :
    (removeChild now i k).Closed :=
  .mk (fun d hd => h.volatile d (mem_of_mem_eraseIdx hd))
    fun d hd => h.subkeys d (mem_of_mem_eraseIdx hd)

theorem renameAt_closed {i : Nat} {newName : WStr} (h : k.Closed) :
    (renameAt now i newName k).Closed ∧ (renameAt now i newName k).isVolatile = k.isVolatile := by
  cases hi : k.subkeys[i]? with
  | none =>
    have hsame : k.subkeys.modify i (fun c => { c with lastWriteTime := now }) = k.subkeys :=
      modify_eq_self (List.getElem?_eq_none_iff.mp hi)
    have : renameAt now i newName k = k := by simp [renameAt, cmpRenameNode, hsame, hi]
    rw [this]
    exact ⟨h, rfl⟩
  | some c =>
    obtain ⟨l₁, l₂, hsub, rfl⟩ := eq_append_of_getElem? hi
    have hmem : c ∈ k.subkeys := mem_of_getElem? hi
    have hold : ∀ d ∈ l₁ ++ l₂, d ∈ k.subkeys := by
      intro d hd
      rw [hsub]
      exact (Sublist.append_left (sublist_cons_self _ _) _).subset hd
    have hlink : ∀ d ∈ cmpLinkSubkeySorted (l₁ ++ l₂) (renamed now newName c),
        d = renamed now newName c ∨ d ∈ l₁ ++ l₂ := fun d hd =>
      (mem_orderedInsert KeyBefore).mp hd
    rw [renameAt_eq hsub]
    refine ⟨.mk ?_ ?_, rfl⟩
    · intro d hd hk
      rcases hlink d hd with rfl | hd
      · exact h.volatile c hmem hk
      · exact h.volatile d (hold d hd) hk
    · intro d hd
      rcases hlink d hd with rfl | hd
      · exact (h.subkeys c hmem).congr rfl rfl
      · exact h.subkeys d (hold d hd)

end

mutual

def Key.checkClosed : Key → Bool
  | ⟨_, _, _, _, volatileFlag, _, subkeys⟩ => checkClosedSubkeys volatileFlag subkeys

def checkClosedSubkeys (volatileFlag : Bool) : List Key → Bool
  | [] => true
  | c :: rest =>
    (!volatileFlag || c.isVolatile) && c.checkClosed && checkClosedSubkeys volatileFlag rest

end

theorem Key.closed_of_check {k : Key} : k.checkClosed = true → k.Closed := by
  induction k using Key.induct with
  | h k ih =>
    intro h
    have hlist : ∀ subkeys, (∀ c ∈ subkeys, c.checkClosed = true → c.Closed) →
        checkClosedSubkeys k.isVolatile subkeys = true →
        ∀ c ∈ subkeys, (k.isVolatile = true → c.isVolatile = true) ∧ c.Closed := by
      intro subkeys ih hs
      induction subkeys with
      | nil => intro c hc; cases hc
      | cons d rest ihl =>
        simp only [checkClosedSubkeys, Bool.and_eq_true, Bool.or_eq_true, Bool.not_eq_true'] at hs
        intro c hc
        rcases mem_cons.mp hc with rfl | hc
        · refine ⟨fun hk => hs.1.1.resolve_left (by simp [hk]), ih c mem_cons_self hs.1.2⟩
        · exact ihl (fun e he => ih e (.tail _ he)) hs.2 c hc
    have hcheck : checkClosedSubkeys k.isVolatile k.subkeys = true := by
      cases k; exact h
    have hall := hlist k.subkeys ih hcheck
    exact .mk (fun c hc => (hall c hc).1) fun c hc => (hall c hc).2

/-! ## What a call leaves -/

structure Env.Writes (env : Env) : Prop where
  capture : env.capturePool = true
  record : env.recordPool = true
  write : ntSuccess env.write = true

def Whole (s s' : CmState) : Prop := s'.lost = s.lost ∨ s'.log = s.log

section
variable {env : Env} {s s' t : CmState} {st : NtStatus} {path : KeyPath} {handle : KeyRef}

theorem Key.Closed.restamp {k : Key} {p : Pos} {f : Key → Key} (h : k.Closed)
    (hf : ∀ n, (f n).isVolatile = n.isVolatile ∧ (f n).subkeys = n.subkeys) :
    (k.modifyAt f p).Closed :=
  h.modifyAt fun n _ hn => ⟨hn.congr (hf n).1 (hf n).2, (hf n).1⟩

/-- A call leaves a closed tree closed, and what it writes reaches the file. -/
structure Leaves (env : Env) (s s' : CmState) : Prop where
  closed : s.root.Closed → s'.root.Closed
  whole : env.Writes → Whole s s'

theorem Leaves.refl : Leaves env s s := ⟨id, fun _ => .inl rfl⟩

theorem Leaves.unlogged (hclosed : s.root.Closed → t.root.Closed) (hlog : t.log = s.log) :
    Leaves env s t := ⟨hclosed, fun _ => .inr hlog⟩

theorem Leaves.record {op keyFlags : UInt8} {path : WStr} {stamp : UInt64} {tail : LogTail}
    (hclosed : s.root.Closed → t.root.Closed) (hsame : t.lost = s.lost ∧ t.log = s.log) :
    Leaves env s (cmpLogRecord env op keyFlags path stamp tail t) := by
  refine ⟨fun hs => by rw [cmpLogRecord_root]; exact hclosed hs, fun hw => ?_⟩
  rw [cmpLogRecord]
  dsimp only
  split
  · exact .inr hsame.2
  split
  · exact .inr hsame.2
  rw [if_pos hw.write]
  exact .inl hsame.1

theorem ntCreateKey_leaves {options : CreateOptions} (h : ntCreateKey env path options s = (st, s')) :
    Leaves env s s' := by
  rw [ntCreateKey] at h
  split at h
  · cases h; exact .refl
  split at h
  · cases h; exact .refl
  · split at h
    · cases h; exact .refl
    split at h
    · cases h; exact .refl
    split at h
    · cases h; exact .refl
    cases h
    exact .unlogged (fun hs => hs.restamp fun n => ⟨rfl, rfl⟩) rfl
  · cases h; exact .refl
  rename_i p leaf hres
  split at h
  · cases h; exact .refl
  rename_i parent hparent
  split at h
  · cases h; exact .refl
  split at h
  · cases h; exact .refl
  split at h
  · cases h; exact .refl
  have hadd (hs : s.root.Closed) : (s.root.modifyAt (addChild env.now (createdKey env.now leaf
      (parent.isVolatile || options.isVolatile) options.createLink)) p).Closed := by
    refine hs.modifyAt fun n hn hclosed => ⟨addChild_closed hclosed (.mk ?_ ?_) fun hvol => ?_, rfl⟩
    · intro c hc; simp [createdKey, newNode] at hc
    · intro c hc; simp [createdKey, newNode] at hc
    · rw [hparent] at hn
      cases hn
      simp [createdKey, hvol]
  simp only at h
  split at h
  · cases h; exact .unlogged hadd rfl
  cases h
  have hbody (hs : s.root.Closed) := @Key.Closed.restamp _ (p ++ [sortedIndex parent.subkeys leaf])
    addBody (hadd hs) fun n => ⟨rfl, rfl⟩
  split
  · exact .unlogged hbody rfl
  · rw [cmpLogCreateKey]
    exact .record hbody ⟨rfl, rfl⟩

theorem ntDeleteKey_leaves (h : ntDeleteKey env handle s = (st, s')) : Leaves env s s' := by
  have hremove (p : Pos) (i : Nat) (hs : s.root.Closed) :
      (s.root.modifyAt (removeChild env.now i) p).Closed :=
    hs.modifyAt fun n _ hn => ⟨removeChild_closed hn, rfl⟩
  unfold ntDeleteKey at h
  split at h
  · cases h; exact .refl
  split at h
  · cases h; exact .refl
  split at h
  · cases h; exact .refl
  · cases h; exact .refl
  split at h
  · cases h; exact .refl
  split at h
  · cases h; exact .refl
  simp only at h
  split at h
  · cases h
    rw [cmpLogDeleteKey]
    exact .record (hremove _ _) ⟨rfl, rfl⟩
  · cases h
    split <;> exact .unlogged (hremove _ _) rfl

theorem ntRenameKey_leaves {newName : WStr} {odd : Bool}
    (h : ntRenameKey env handle newName odd s = some (st, s')) : Leaves env s s' := by
  have hrename (p : Pos) (i : Nat) (hs : s.root.Closed) :
      (s.root.modifyAt (renameAt env.now i newName) p).Closed :=
    hs.modifyAt fun n _ hn => renameAt_closed hn
  rw [ntRenameKey] at h
  split at h
  · cases h; exact .refl
  split at h
  · cases h; exact .refl
  split at h
  · cases h; exact .refl
  split at h
  · cases h; exact .refl
  split at h
  · cases h; exact .refl
  split at h
  · split at h
    · cases h; exact .refl
    simp only at h
    split at h
    · cases h
    split at h
    · cases h; exact .unlogged id rfl
    split at h
    · rename_i hcaptured
      cases h
      rw [cmpLogRenameKey]
      refine .record (hrename _ _) ⟨?_, rfl⟩
      rw [hcaptured, isSome_some, Bool.or_true]
      rfl
    · cases h; exact .unlogged (hrename _ _) rfl
  · cases h; exact .refl

theorem ntSetValueKey_leaves {name : WStr} {type : UInt32} {data : List UInt8}
    (h : ntSetValueKey env handle name type data s = (st, s')) : Leaves env s s' := by
  have hset (p : Pos) (hs : s.root.Closed) :
      (s.root.modifyAt (setStamped env.now name type data) p).Closed :=
    hs.restamp fun n => ⟨rfl, rfl⟩
  rw [ntSetValueKey] at h
  split at h
  · cases h; exact .refl
  split at h
  · cases h; exact .refl
  split at h
  · cases h; exact .refl
  split at h
  · cases h; exact .refl
  split at h
  · cases h; exact .refl
  split at h
  · cases h; exact .refl
  simp only at h
  split at h
  · cases h; exact .unlogged (hset _) rfl
  split at h
  · cases h
    rw [cmpLogSetValue]
    exact .record (hset _) ⟨rfl, rfl⟩
  · cases h
    rw [cmpLogTouchKey]
    exact .record (hset _) ⟨rfl, rfl⟩

theorem ntDeleteValueKey_leaves {name : WStr}
    (h : ntDeleteValueKey env handle name s = (st, s')) : Leaves env s s' := by
  have hremove (p : Pos) (hs : s.root.Closed) :
      (s.root.modifyAt (removeStamped env.now name) p).Closed :=
    hs.restamp fun n => by
      rw [removeStamped, cmpRemoveValue]
      split <;> exact ⟨rfl, rfl⟩
  rw [ntDeleteValueKey] at h
  split at h
  · cases h; exact .refl
  split at h
  · cases h; exact .refl
  split at h
  · cases h; exact .refl
  split at h
  · cases h; exact .refl
  cases h
  split
  · exact .unlogged (hremove _) rfl
  · rw [cmpLogDeleteValue]
    exact .record (hremove _) ⟨rfl, rfl⟩

theorem ntSetInformationKey_leaves {infoClass : Int} {length : Nat} {stamp : UInt64}
    (h : ntSetInformationKey env handle infoClass length stamp s = (st, s')) : Leaves env s s' := by
  have hstamp (p : Pos) (hs : s.root.Closed) : (s.root.modifyAt (stampKey stamp) p).Closed :=
    hs.restamp fun n => ⟨rfl, rfl⟩
  rw [ntSetInformationKey] at h
  split at h
  · cases h; exact .refl
  split at h
  · cases h; exact .refl
  split at h
  · cases h; exact .refl
  split at h
  · cases h; exact .refl
  cases h
  split
  · exact .unlogged (hstamp _) rfl
  · rw [cmpLogTouchKey]
    exact .record (hstamp _) ⟨rfl, rfl⟩

theorem ntOpenKeyEx_leaves {openLink access : Bool}
    (h : ntOpenKeyEx env path openLink access s = (st, s')) : Leaves env s s' := by
  rw [ntOpenKeyEx] at h
  split at h
  · cases h; exact .refl
  split at h
  · cases h; exact .refl
  · cases h; exact .refl
  split at h
  · cases h; exact .refl
  split at h
  · cases h; exact .refl
  cases h
  exact .unlogged (fun hs => hs.restamp fun n => ⟨rfl, rfl⟩) rfl

theorem closeKeyBody_leaves (h : closeKeyBody handle s = (st, s')) : Leaves env s s' := by
  cases handle with
  | deleted => cases h; exact .refl
  | key p => cases h; exact .unlogged (fun hs => hs.restamp fun n => ⟨rfl, rfl⟩) rfl

/-- The calls that neither load, unload nor restore a hive. -/
def Op.basic : Op → Bool
  | .loadKey .. => false
  | .unloadKey .. => false
  | .restoreKey .. => false
  | _ => true

theorem step_leaves {op : Op} (hop : op.basic = true) (h : step env op s = some (st, s')) :
    Leaves env s s' := by
  cases op with
  | createKey path options => exact ntCreateKey_leaves (some.inj h)
  | openKey path openLink access => exact ntOpenKeyEx_leaves (some.inj h)
  | closeKey handle => exact closeKeyBody_leaves (some.inj h)
  | deleteKey handle => exact ntDeleteKey_leaves (some.inj h)
  | renameKey handle newName odd => exact ntRenameKey_leaves h
  | setValueKey handle name type data => exact ntSetValueKey_leaves (some.inj h)
  | deleteValueKey handle name => exact ntDeleteValueKey_leaves (some.inj h)
  | setInformationKey handle infoClass length stamp =>
    exact ntSetInformationKey_leaves (some.inj h)
  | loadKey path file => cases hop
  | unloadKey path => cases hop
  | restoreKey handle file flags => cases hop

theorem ntCreateKey_handle {options : CreateOptions} {p : Pos} {leaf : WStr}
    (hres : cmpResolvePath env s.root path true (options.createLink || options.openLink) =
      .ok { parent := some p, leaf, found := none })
    (h : ntCreateKey env path options s = (st, s')) (hst : ntSuccess st = true) :
    ntSuccess env.handle = true := by
  rw [ntCreateKey] at h
  split at h
  · rename_i hprobe
    cases h
    exact absurd hst hprobe
  rw [hres] at h
  simp only at h
  split at h
  · cases h; exact absurd hst (by decide)
  split at h
  · cases h; exact absurd hst (by decide)
  split at h
  · cases h; exact absurd hst (by decide)
  split at h
  · cases h; exact absurd hst (by decide)
  split at h
  · rename_i hhandle
    cases h
    exact absurd hst hhandle
  · rename_i hhandle
    simpa using hhandle

/-- In a closed tree a successful basic call meets its condition. -/
theorem stepOk_of_closed {op : Op} (hop : op.basic = true) (hs : s.root.Closed)
    (h : step env op s = some (st, s')) (hst : ntSuccess st = true) : StepOk env s op := by
  cases op with
  | createKey path options =>
    intro _ p leaf n hres hn hvol
    exact ⟨hs.loggable n hn hvol, ntCreateKey_handle hres (some.inj h) hst⟩
  | openKey path openLink access => trivial
  | closeKey handle => cases handle <;> trivial
  | deleteKey handle =>
    cases handle with
    | key p => exact hs.loggable
    | deleted => trivial
  | renameKey handle newName odd =>
    cases handle with
    | key p => exact hs.loggable
    | deleted => trivial
  | setValueKey handle name type data =>
    cases handle with
    | key p => exact hs.loggable
    | deleted => trivial
  | deleteValueKey handle name =>
    cases handle with
    | key p => exact hs.loggable
    | deleted => trivial
  | setInformationKey handle infoClass length stamp =>
    cases handle with
    | key p => exact hs.loggable
    | deleted => trivial
  | loadKey path file => cases hop
  | unloadKey path => cases hop
  | restoreKey handle file flags => cases hop

end

/-! ## The log refines the tree -/

/-- The boot replay of the log reads it to the last byte and rebuilds the image of the tree. -/
def Refines (s : CmState) : Prop :=
  ∀ now, ∃ t n, cmpReplayImage now 1 (emptyRoot now) s.log true = (statusSuccess, t) ∧
    cmpReplayRecords now 1 s.log.length (emptyRoot now) (s.log.drop 16) 0 = (t, [], n) ∧
    t.untimed = s.root.image

/-- A successful call that neither loads nor restores a hive and of which no change is lost for the
file: there was pool, the append succeeded and the cap was not reached. -/
def Kept (_ : Env) (s : CmState) (op : Op) (st : NtStatus) (s' : CmState) : Prop :=
  op.basic = true ∧ ntSuccess st = true ∧ s'.lost = s.lost

theorem Replays.loop {log : List UInt8} {now : UInt64} {t : Key} (h : Replays log now t) :
    ∃ n, cmpReplayRecords now 1 log.length (emptyRoot now) (log.drop 16) 0 = (t, [], n) := by
  obtain ⟨n, hn⟩ := h.records.cmpReplayRecords
    (show (log.drop 16).length ≤ log.length by rw [length_drop]; omega) 0
  exact ⟨0 + n, hn⟩

theorem Replays.refused {log : List UInt8} {now : UInt64} {t : Key} (h : Replays log now t)
    {e : Entry} (he : e.Fits) (hrefused : (cmpApplyRecord now 1 t e.record).2 = false)
    (b : List UInt8) :
    (cmpReplayRecords now 1 (log ++ (e.encode ++ b)).length (emptyRoot now)
      ((log ++ (e.encode ++ b)).drop 16) 0).2.1 = b := by
  obtain ⟨n, hn, hloop⟩ := h.records.cmpReplayRecords_append
  have hlen := e.length_encode_pos
  rw [length_drop] at hn
  obtain ⟨r, hr⟩ : ∃ r, (log ++ (e.encode ++ b)).length = n + (r + 1) :=
    ⟨(log ++ (e.encode ++ b)).length - n - 1, by simp only [length_append]; omega⟩
  rw [hr, drop_append_of_le_length h.length_ge, hloop, cmpReplayRecords,
    e.cmpReadRecord_encode he b]
  rcases happly : cmpApplyRecord now 1 t e.record with ⟨t', _ | _⟩
  · simp only [happly]
  · rw [happly] at hrefused; cases hrefused

theorem Inv.refines {s : CmState} (hs : Inv s) (hcap : s.log.length ≤ cmpHiveMaxBytes) :
    Refines s := by
  intro now
  obtain ⟨t, ht, himage⟩ := hs.replays now
  obtain ⟨n, hn⟩ := ht.loop
  exact ⟨t, n, ht.cmpReplayImage hcap, hn, himage⟩

theorem Run.kept {s₀ s : CmState} (hs₀ : Inv s₀) (hclosed : s₀.root.Closed)
    (hrun : Run Kept s₀ s) : Inv s ∧ s.root.Closed := by
  induction hrun with
  | refl => exact ⟨hs₀, hclosed⟩
  | step _ hstep hkept ih =>
    obtain ⟨hop, hst, hlost⟩ := hkept
    exact ⟨step_inv ih.1 (stepOk_of_closed hop ih.2 hstep hst) hstep hlost,
      (step_leaves hop hstep).closed ih.2⟩

/-- **The log refines the tree.** From a sound log and a tree in which every key below a volatile one
is volatile, after any run of successful calls the boot replay of the log reads every record and
rebuilds the live tree without its volatile keys. -/
theorem log_refines_tree {s₀ s : CmState} (hs₀ : Inv s₀) (hclosed : s₀.root.Closed)
    (hrun : Run Kept s₀ s) (hcap : s.log.length ≤ cmpHiveMaxBytes) : Refines s :=
  (hrun.kept hs₀ hclosed).1.refines hcap

/-! ### A run from a boot -/

/-- The state a boot leaves that had this file and came to this tree before it rewrote the file. -/
def bootState (root : Key) (log : List UInt8) : CmState :=
  cmpRewriteHive {} { root, log, logBytes := 0, lost := 0 }

theorem bootState_eq {root : Key} (hcap : (snapshot root).length ≤ cmpHiveMaxBytes)
    (log : List UInt8) : bootState root log =
      { root, log := snapshot root, logBytes := (snapshot root).length, lost := 0 } := by
  rw [bootState, cmpRewriteHive, cmpSerializeSubtree_eq, if_neg (by simpa using hcap)]
  rfl

theorem bootState_inv {root : Key} (hcap : (snapshot root).length ≤ cmpHiveMaxBytes)
    (hnamed : root.name = registryName) (hstable : root.isVolatile = false)
    (hok : root.Ok cmpHiveMaxDepth) (log : List UInt8) : Inv (bootState root log) :=
  Inv.rewrite hnamed hstable hok (by
    have h := congrArg CmState.lost (bootState_eq hcap log)
    exact h)

def hardwareName : WStr := [0x48, 0x61, 0x72, 0x64, 0x77, 0x61, 0x72, 0x65]

def systemKey : Key :=
  { newNode 0 [0x53, 0x79, 0x73, 0x74, 0x65, 0x6D] with
    subkeys := [{ newNode 0 [0x43, 0x75, 0x72, 0x72, 0x65, 0x6E, 0x74, 0x43, 0x6F, 0x6E, 0x74,
        0x72, 0x6F, 0x6C, 0x53, 0x65, 0x74] with
      subkeys := [{ newNode 0 [0x43, 0x6F, 0x6E, 0x74, 0x72, 0x6F, 0x6C] with
        subkeys := [newNode 0 [0x53, 0x65, 0x73, 0x73, 0x69, 0x6F, 0x6E, 0x20, 0x4D, 0x61, 0x6E,
          0x61, 0x67, 0x65, 0x72]] }] }] }

/-- The tree after a boot, with the given keys below `Hardware`. -/
def bootRoot (hardware : List Key) : Key :=
  { newNode 0 registryName with
    bodyCount := 1
    subkeys :=
      [{ newNode 0 machinePath with
          subkeys := [{ newNode 0 hardwareName with isVolatile := true, subkeys := hardware },
            systemKey] },
       newNode 0 userPath] }

/-- A key made after a boot without a file. -/
def createCall : NtStatus × CmState :=
  ntCreateKey {} (.absolute (machinePath ++ [0x5C, 0x41])) {} (bootState (bootRoot []) [])

def setCall : NtStatus × CmState := ntSetValueKey {} (.key [0, 0]) [0x76] 4 [1] createCall.2

theorem bootRoot_ok : ∀ hardware ∈ [[], [newNode 0 [0x46]]],
    (snapshot (bootRoot hardware)).length ≤ cmpHiveMaxBytes ∧
      (bootRoot hardware).Ok cmpHiveMaxDepth := by
  decide +kernel

theorem log_refines_tree_created : Run Kept (bootState (bootRoot []) []) setCall.2 ∧
    Refines setCall.2 := by
  obtain ⟨hcap, hok⟩ := bootRoot_ok [] (by simp)
  have hinv : Inv (bootState (bootRoot []) []) := bootState_inv hcap rfl rfl hok []
  have hcalls : (ntSuccess createCall.1 = true ∧
        createCall.2.lost = (bootState (bootRoot []) []).lost) ∧
      (ntSuccess setCall.1 = true ∧ setCall.2.lost = createCall.2.lost) ∧
      setCall.2.log.length ≤ cmpHiveMaxBytes := by
    decide +kernel
  have hclosed : (bootState (bootRoot []) []).root.Closed :=
    Key.closed_of_check (by decide +kernel)
  have hrun : Run Kept (bootState (bootRoot []) []) setCall.2 := by
    refine .call (.call .refl {} (.createKey (.absolute (machinePath ++ [0x5C, 0x41])) {})
      (r := createCall) rfl ?_) {} (.setValueKey (.key [0, 0]) [0x76] 4 [1]) rfl ?_
    · exact ⟨rfl, hcalls.1⟩
    · exact ⟨rfl, hcalls.2.1⟩
  exact ⟨hrun, log_refines_tree hinv hclosed hrun hcalls.2.2⟩

/-! ### A boot with a key below `Hardware` -/

/-- The records of a hive that holds `Machine\Hardware\F`, as keys that stay: a run that renames the
volatile `Hardware` away and another key to its name leaves such a hive. -/
def hardwareEntries : List Entry :=
  [createEntry [] (newNode 0 []), createEntry [machinePath] (newNode 0 []),
   createEntry [machinePath, hardwareName] (newNode 0 []),
   createEntry [machinePath, hardwareName, [0x46]] (newNode 0 [])]

def hardwareLog : List UInt8 := hiveHeader ++ hardwareEntries.flatMap Entry.encode

def hardwareRoot : Key := bootRoot [newNode 0 [0x46]]

def hardwareBoot : CmState := bootState hardwareRoot hardwareLog

theorem eq_some_of_any_same {o : Option Key} {k : Key} (h : (o.any fun x => x.same k) = true) :
    o = some k := by
  cases o with
  | none => cases h
  | some x => rw [Key.eq_of_same h]

/-- What the boot makes of the hive before it marks `Hardware`. -/
def hardwareTree : Key :=
  { newNode 0 registryName with
    bodyCount := 1
    subkeys := [{ newNode 0 machinePath with
      subkeys := [{ newNode 0 hardwareName with subkeys := [newNode 0 [0x46]] }] }] }

/-- The boot marks `Hardware` volatile and leaves the key below it as it is. -/
theorem cmInitialize_hardware : cmInitialize {} none [] (some hardwareLog) = some hardwareBoot := by
  have hfits : ∀ e ∈ hardwareEntries, e.Fits := by
    have h : ∀ e ∈ hardwareEntries, (cmpBuildPath e.names).length < 32768 ∧
        e.valueCount < 65536 ∧ e.encode.length < 2 ^ 32 := by decide +kernel
    exact fun e he => ⟨(h e he).1, (h e he).2.1, (h e he).2.2⟩
  have happly : applyEntries 0 1 hardwareEntries
      { newNode 0 registryName with bodyCount := 1 } = some hardwareTree :=
    eq_some_of_any_same (by decide +kernel)
  have hlen : ¬ (hardwareLog.length < 16 ∨ hardwareLog.length > cmpHiveMaxBytes) := by
    decide +kernel
  have hload : cmpLoadHive 0 (some hardwareLog) { newNode 0 registryName with bodyCount := 1 } =
      hardwareTree := by
    have himage : cmpReplayImage 0 1 { newNode 0 registryName with bodyCount := 1 } hardwareLog
        true = (statusSuccess, hardwareTree) :=
      cmpReplayImage_entries hfits happly (by decide) (by decide)
        (by simp [hardwareEntries]) (by decide +kernel) true
    rw [cmpLoadHive, if_neg hlen, himage]
    rfl
  have hseed : ((seedFurniture 0 [(machinePath, []), (userPath, []), (sessionManagerPath, [])]
      hardwareTree).bind (cmpSeedQemuBootFlags 0 none)) = some hardwareRoot :=
    eq_some_of_any_same (by decide +kernel)
  obtain ⟨root, hskeleton, hflags⟩ := bind_eq_some_iff.mp hseed
  unfold cmInitialize
  simp only [hload]
  rw [hskeleton, bind_some, hflags, bind_some]
  rfl

/-- A set value that changes the file appends the record of the value as it is bound. -/
theorem ntSetValueKey_log {env : Env} {p : Pos} {name : WStr} {type : UInt32} {data : List UInt8}
    {s : CmState} {r : NtStatus × CmState} {node : Key} {v : Value} {names : List WStr}
    (hr : ntSetValueKey env (.key p) name type data s = r)
    (hset : (s.root.get? p).any (fun k => k.same node) = true ∧ s.root.namesTo p = names ∧
      cmpFindValue (cmpSetValue node name type data) name = some v ∧ r.2.lost = s.lost ∧
      r.2.log.length ≠ s.log.length) :
    r.2.log = s.log ++ (logEntry cmpOpSetValues 0 names env.now (.value v)).encode := by
  obtain ⟨hsame, rfl, hv, hlost, hlog⟩ := hset
  have hnode := eq_some_of_any_same hsame
  obtain ⟨st, s'⟩ := r
  rw [ntSetValueKey] at hr
  split at hr
  · cases hr; exact absurd rfl hlog
  split at hr
  · cases hr; exact absurd rfl hlog
  split at hr
  · cases hr; exact absurd rfl hlog
  rename_i q n href
  obtain ⟨hq, hn⟩ := cmpReferenceKey_ok href
  cases hq
  rw [hnode] at hn
  cases hn
  split at hr
  · cases hr; exact absurd rfl hlog
  split at hr
  · cases hr; exact absurd rfl hlog
  split at hr
  · cases hr; exact absurd rfl hlog
  simp only at hr
  split at hr
  · cases hr; exact absurd rfl hlog
  rw [hv] at hr
  cases hr
  have hpath : (s.modify p (setStamped env.now name type data)).root.namesTo p =
      s.root.namesTo p := Key.namesTo_modifyAt hnode rfl
  rw [cmpLogSetValue, logPath, hpath] at hlost ⊢
  exact (cmpLogRecord_kept hlost).2

def lostCall : NtStatus × CmState := ntSetValueKey {} (.key [0, 0, 0]) [0x76] 4 [1] hardwareBoot

def laterCall : NtStatus × CmState := ntSetValueKey {} (.key [1]) [0x77] 4 [2] lostCall.2

/-- **Not from every boot.** A key that stays below the volatile `Hardware` is logged under a path
that no replay finds, and the replay stops there. -/
theorem log_refines_tree_hardware : ¬ ∀ env qemu furniture file s₀ s,
    cmInitialize env qemu furniture file = some s₀ →
    (∀ now, ∃ t, cmpReplayImage now 1 (emptyRoot now) s₀.log true = (statusSuccess, t) ∧
      t.untimed = s₀.root.image) →
    Run Kept s₀ s → s.log.length ≤ cmpHiveMaxBytes → Refines s := by
  intro hclaim
  obtain ⟨hcap, hok⟩ : (snapshot hardwareRoot).length ≤ cmpHiveMaxBytes ∧
      hardwareRoot.Ok cmpHiveMaxDepth := bootRoot_ok [newNode 0 [0x46]] (by simp)
  have hboot := bootState_eq hcap hardwareLog
  have hinv : Inv hardwareBoot := bootState_inv hcap rfl rfl hok _
  have hcalls : (ntSuccess lostCall.1 = true ∧ lostCall.2.lost = hardwareBoot.lost) ∧
      (ntSuccess laterCall.1 = true ∧ laterCall.2.lost = lostCall.2.lost) ∧
      hardwareBoot.log.length ≤ cmpHiveMaxBytes ∧ laterCall.2.log.length ≤ cmpHiveMaxBytes := by
    decide +kernel
  have hrun : Run Kept hardwareBoot laterCall.2 := by
    refine .call (.call .refl {} (.setValueKey (.key [0, 0, 0]) [0x76] 4 [1]) (r := lostCall)
      rfl ?_) {} (.setValueKey (.key [1]) [0x77] 4 [2]) rfl ?_
    · exact ⟨rfl, hcalls.1⟩
    · exact ⟨rfl, hcalls.2.1⟩
  -- the file after the two calls: the snapshot and one record for each
  have hfirst := @ntSetValueKey_log {} [0, 0, 0] [0x76] 4 [1] hardwareBoot lostCall
    (newNode 0 [0x46]) ⟨[0x76], 4, [1]⟩ [machinePath, hardwareName, [0x46]] rfl
    (by decide +kernel)
  have hsecond := @ntSetValueKey_log {} [1] [0x77] 4 [2] lostCall.2 laterCall
    (newNode 0 userPath) ⟨[0x77], 4, [2]⟩ [userPath] rfl (by decide +kernel)
  rw [show hardwareBoot.log = snapshot hardwareRoot from congrArg CmState.log hboot] at hfirst
  obtain ⟨t, n, -, hloop, -⟩ := hclaim {} none [] (some hardwareLog) hardwareBoot laterCall.2
    cmInitialize_hardware
    (fun now => by
      obtain ⟨t, -, himage, -, ht⟩ := hinv.refines hcalls.2.2.1 now
      exact ⟨t, himage, ht⟩)
    hrun hcalls.2.2.2 0
  have hstop := (snapshot_replays hok hcap 0).refused
    (e := logEntry cmpOpSetValues 0 [machinePath, hardwareName, [0x46]] ({} : Env).now
      (.value ⟨[0x76], 4, [1]⟩))
    ⟨by decide +kernel, by decide +kernel, by decide +kernel⟩ (by decide +kernel)
    (logEntry cmpOpSetValues 0 [userPath] ({} : Env).now (.value ⟨[0x77], 4, [2]⟩)).encode
  rw [← append_assoc, ← hfirst, ← hsecond, hloop] at hstop
  have hlen := Entry.length_encode_pos (logEntry cmpOpSetValues 0 [userPath] ({} : Env).now
    (.value ⟨[0x77], 4, [2]⟩))
  rw [← hstop] at hlen
  exact absurd hlen (by simp)

end Proskrnl.Cm
