import Proskrnl.Cm.Image

/-!
# The log refines the tree

A log is sound for a tree when every record of it is accepted to the last byte and the tree it
rebuilds is the image of the live one (`Inv`). `step_inv` says that each service goes one of these ways,
under the conditions that `StepOk` names.
-/

namespace Proskrnl.Cm
open Bytes ListUpdate List Option

/-! ## Logs that are accepted to the last byte -/

/-- Every record of the bytes is read and accepted, from `top` to the last tree. -/
inductive LogReplay (now : UInt64) (depth : Nat) : Key → List UInt8 → Key → Prop
  | nil (top : Key) : LogReplay now depth top [] top
  | cons {top top' t : Key} {bytes rest : List UInt8} {record : Record} :
    cmpReadRecord bytes = some (record, rest) →
    cmpApplyRecord now depth top record = (top', true) → LogReplay now depth top' rest t →
    LogReplay now depth top bytes t

section
variable {now : UInt64} {depth : Nat} {top t t' : Key} {a b : List UInt8}

theorem LogReplay.append (h : LogReplay now depth top a t) (h' : LogReplay now depth t b t') :
    LogReplay now depth top (a ++ b) t' := by
  induction h with
  | nil top => exact h'
  | cons hread happly _ ih => exact .cons (cmpReadRecord_append hread b) happly (ih h')

theorem LogReplay.of_entries {es : List Entry} (hfit : ∀ e ∈ es, e.Fits)
    (h : applyEntries now depth es top = some t) :
    LogReplay now depth top (es.flatMap Entry.encode) t := by
  induction es generalizing top with
  | nil => cases h; exact .nil _
  | cons e es ih =>
    rw [applyEntries] at h
    rcases happly : cmpApplyRecord now depth top e.record with ⟨top1, _ | _⟩
    · rw [happly] at h; cases h
    · rw [happly] at h
      rw [flatMap_cons]
      exact .cons (e.cmpReadRecord_encode (hfit e mem_cons_self) _) happly
        (ih (fun d hd => hfit d (.tail _ hd)) h)

theorem cmpReadRecord_length {record : Record} (h : cmpReadRecord a = some (record, b)) :
    b.length + 24 ≤ a.length := by
  unfold cmpReadRecord at h
  split at h
  · cases h
  simp only at h
  split at h
  · cases h
  rename_i hlength
  split at h
  · cases h
  split at h
  · cases h
  split at h
  · cases h
  cases h
  rw [length_drop]
  omega

/-- The replay loop goes through such bytes, one round for each record, and on with what follows. -/
theorem LogReplay.cmpReplayRecords_append (h : LogReplay now depth top a t) :
    ∃ n, n ≤ a.length ∧ ∀ rounds b applied,
      Cm.cmpReplayRecords now depth (n + rounds) top (a ++ b) applied =
        Cm.cmpReplayRecords now depth rounds t b (applied + n) := by
  induction h with
  | nil top => exact ⟨0, le_rfl, fun rounds b applied => by simp⟩
  | @cons top top' t bytes rest record hread happly _ ih =>
    have hlen := cmpReadRecord_length hread
    obtain ⟨n, hn, hloop⟩ := ih
    refine ⟨n + 1, by omega, fun rounds b applied => ?_⟩
    rw [Nat.add_right_comm, Cm.cmpReplayRecords, cmpReadRecord_append hread b]
    simp only [happly, hloop]
    congr 1; omega

theorem LogReplay.cmpReplayRecords (h : LogReplay now depth top a t) {rounds : Nat}
    (hrounds : a.length ≤ rounds) (applied : Nat) :
    ∃ n, Cm.cmpReplayRecords now depth rounds top a applied = (t, [], applied + n) := by
  obtain ⟨n, hn, hloop⟩ := h.cmpReplayRecords_append
  obtain ⟨r, rfl⟩ := Nat.exists_eq_add_of_le (hn.trans hrounds)
  have := hloop r [] applied
  rw [append_nil] at this
  refine ⟨n, this.trans ?_⟩
  cases r <;> rfl

end

def registryName : WStr := [0x52, 0x45, 0x47, 0x49, 0x53, 0x54, 0x52, 0x59]

/-- The root key `CmInitialize` replays the hive into. -/
def emptyRoot (now : UInt64) : Key := newNode now registryName

/-- A hive file whose records are all accepted, and the tree it rebuilds. -/
structure Replays (log : List UInt8) (now : UInt64) (t : Key) : Prop where
  length_ge : 16 ≤ log.length
  magic : field log 0 4 = 0x32564850
  version : field log 4 4 = 2
  records : LogReplay now 1 (emptyRoot now) (log.drop 16) t

namespace Replays
variable {log : List UInt8} {now : UInt64} {t t' : Key}

theorem append (h : Replays log now t) {b : List UInt8} (h' : LogReplay now 1 t b t') :
    Replays (log ++ b) now t' where
  length_ge := by rw [length_append]; exact Nat.le_add_right_of_le h.length_ge
  magic := by rw [field_append_left b (by have := h.length_ge; omega)]; exact h.magic
  version := by rw [field_append_left b (by have := h.length_ge; omega)]; exact h.version
  records := by
    rw [drop_append_of_le_length h.length_ge]
    exact h.records.append h'

theorem cmpReplayImage (h : Replays log now t) (hcap : log.length ≤ cmpHiveMaxBytes) :
    Cm.cmpReplayImage now 1 (emptyRoot now) log true = (statusSuccess, t) := by
  obtain ⟨n, hn⟩ := h.records.cmpReplayRecords
    (show (log.drop 16).length ≤ log.length by rw [length_drop]; omega) 0
  have hlen := h.length_ge
  rw [Cm.cmpReplayImage, hn, h.magic, h.version, if_neg (by omega),
    if_neg (by decide)]
  simp

end Replays

/-! ## The invariant -/

/-- The tree is well formed and the log rebuilds its image. -/
structure Inv (s : CmState) : Prop where
  named : s.root.name = registryName
  stable : s.root.isVolatile = false
  ok : s.root.Ok cmpHiveMaxDepth
  replays : ∀ now, ∃ t, Replays s.log now t ∧ t.untimed = s.root.image

section
variable {s s' : CmState} {p : Pos} {n : Key} {f : Key → Key}

theorem Inv.modify (hs : Inv s) (h : s.root.get? p = some n) (hname : (f n).name = n.name)
    (hvol : (f n).isVolatile = n.isVolatile)
    (himage : s.root.visible p = true → (f n).image = n.image)
    (hok : s.root.visible p = true → ∀ j, cmpHiveMaxDepth = j + p.length → n.Ok j → (f n).Ok j) :
    Inv (s.modify p f) where
  named := (Key.name_modifyAt h hname).trans hs.named
  stable := (Key.isVolatile_modifyAt h hvol).trans hs.stable
  ok := hs.ok.modifyAt h hname hvol hok
  replays := fun now => by
    obtain ⟨t, ht, himg⟩ := hs.replays now
    exact ⟨t, ht, himg.trans (Key.image_modifyAt_of_eq h hvol himage).symm⟩

theorem Inv.append (hs : Inv s) (h : s.root.get? p = some n) (hvis : s.root.visible p = true)
    (hname : (f n).name = n.name) (hvol : (f n).isVolatile = n.isVolatile)
    (hok : ∀ j, cmpHiveMaxDepth = j + p.length → n.Ok j → (f n).Ok j) {e : Entry} (hfits : e.Fits)
    (g g0 : Key → Option Key) (hg : ∀ k, (g k).map Key.untimed = g0 k.untimed)
    (hg0 : g0 n.image = some (f n).image)
    (happly : ∀ now t t', t.updatePath (s.root.namesTo p) g = some t' →
      cmpApplyRecord now 1 t e.record = (t', true))
    (hroot : s'.root = s.root.modifyAt f p) (hlog : s'.log = s.log ++ e.encode) : Inv s' where
  named := by rw [hroot]; exact (Key.name_modifyAt h hname).trans hs.named
  stable := by rw [hroot]; exact (Key.isVolatile_modifyAt h hvol).trans hs.stable
  ok := by rw [hroot]; exact hs.ok.modifyAt h hname hvol fun _ => hok
  replays := fun now => by
    obtain ⟨t, ht, himg⟩ := hs.replays now
    have hup := Key.updatePath_image hs.ok h hvis hvol hg0
    rw [← himg, ← Key.updatePath_untimed hg t] at hup
    obtain ⟨t', ht', himg'⟩ := map_eq_some_iff.mp hup
    refine ⟨t', ?_, by rw [hroot, himg']⟩
    rw [hlog]
    have hread := e.cmpReadRecord_encode hfits []
    rw [append_nil] at hread
    exact ht.append (.cons hread (happly now t t' ht') (.nil t'))

/-- The tree that the snapshot of a well formed tree is read back as. -/
def restored (now : UInt64) (root : Key) : Key :=
  { emptyRoot now with
    values := root.values, lastWriteTime := root.lastWriteTime, isLink := root.isLink,
    subkeys := (root.project id).subkeys }

theorem snapshot_replays {root : Key} (hok : root.Ok cmpHiveMaxDepth)
    (hcap : (snapshot root).length ≤ cmpHiveMaxBytes) (now : UInt64) :
    Replays (snapshot root) now (restored now root) := by
  have hfits := snapshot_fits hok (le_refl 96) hcap
  have happly := @applyEntries_snapshot _ 1 _ now (emptyRoot now) hok rfl rfl (by decide)
    fun e he => hfits e (mem_cons_of_mem _ he)
  refine ⟨by simp [snapshot, hiveHeader]; omega, ?_, ?_, LogReplay.of_entries hfits happly⟩
  · simp [snapshot, hiveHeader, field_le]
  · simp [snapshot, hiveHeader, field_append, field_le]

/-- A fresh snapshot of a well formed tree rebuilds its image, whatever the file held before. -/
theorem Inv.rewrite {env : Env} (hnamed : s.root.name = registryName)
    (hstable : s.root.isVolatile = false) (hok : s.root.Ok cmpHiveMaxDepth)
    (hlost : (cmpRewriteHive env s).lost = s.lost) : Inv (cmpRewriteHive env s) := by
  have hroot : (cmpRewriteHive env s).root = s.root := by
    rw [cmpRewriteHive]
    split
    · rfl
    · split <;> rfl
  refine ⟨hroot ▸ hnamed, hroot ▸ hstable, hroot ▸ hok, fun now => ?_⟩
  rw [hroot]
  rw [cmpRewriteHive] at hlost ⊢
  split at hlost
  · exact absurd hlost (Nat.succ_ne_self _)
  rename_i bytes hbytes
  split at hlost
  · rename_i hwrite
    simp only [if_pos hwrite]
    obtain ⟨rfl, hcap⟩ := cmpSerializeSubtree_ok hbytes
    refine ⟨_, snapshot_replays hok hcap now, ?_⟩
    rw [← Key.untimed_project_id, Key.untimed_eq, Key.untimed_eq (s.root.project id),
      Key.project_eq]
    simp [restored, emptyRoot, newNode, hnamed, Key.project_eq]
  · exact absurd hlost (Nat.succ_ne_self _)

end

/-! ## What a log record appends -/

def LogTail.bytes : LogTail → List UInt8
  | none => []
  | value v => encodeValue v
  | name n => encodeTailName n

theorem LogTail.write_writes (tail : LogTail) : Writer.Writes tail.write tail.bytes := by
  cases tail with
  | none => exact fun w _ => (Writer.cmpWriteBytes_nil w).symm
  | value v => exact Writer.cmpWriteValue_writes v
  | name n => exact Writer.cmpWriteTailName_writes n

def logEntry (op keyFlags : UInt8) (names : List WStr) (stamp : UInt64) (tail : LogTail) : Entry where
  op := op
  keyFlags := keyFlags
  names := names
  stamp := stamp
  valueCount := tail.valueCount
  tail := tail.bytes

section
variable {env : Env} {op keyFlags : UInt8} {names : List WStr} {stamp : UInt64} {tail : LogTail}
  {s : CmState}

theorem cmpLogRecord_eq : cmpLogRecord env op keyFlags (cmpBuildPath names) stamp tail s =
    let e := logEntry op keyFlags names stamp tail
    if s.logBytes + e.encode.length > cmpHiveMaxBytes ∨ env.recordPool = false then
      { s with lost := s.lost + 1 }
    else if ntSuccess env.write then
      { s with log := s.log ++ e.encode, logBytes := s.logBytes + e.encode.length }
    else { s with log := s.log ++ e.encode.take env.torn, lost := s.lost + 1 } := by
  have hm : Writer.Aligned { buffer := none, offset := 0 } := ⟨by simp, rfl⟩
  have he : Writer.Aligned { buffer := some [], offset := 0 } := ⟨by simp, rfl⟩
  rw [cmpLogRecord]
  simp only [Writer.writeRecord_eq hm tail.write_writes, Writer.writeRecord_eq he tail.write_writes]
  have hlen : (Writer.cmpWriteBytes { buffer := none, offset := 0 } (encodeRecord op keyFlags
      (cmpBuildPath names) stamp tail.valueCount tail.bytes)).offset =
      (logEntry op keyFlags names stamp tail).encode.length := by
    simp [Writer.cmpWriteBytes, logEntry, Entry.encode]
  have hbytes : (Writer.cmpWriteBytes { buffer := some [], offset := 0 } (encodeRecord op keyFlags
      (cmpBuildPath names) stamp tail.valueCount tail.bytes)).buffer.getD [] =
      (logEntry op keyFlags names stamp tail).encode := by
    simp [Writer.cmpWriteBytes, logEntry, Entry.encode]
  rw [hlen, hbytes]
  by_cases hcap : s.logBytes + (logEntry op keyFlags names stamp tail).encode.length >
      cmpHiveMaxBytes
  · simp [hcap]
  · cases hpool : env.recordPool <;> simp [hcap]

theorem cmpLogRecord_kept
    (h : (cmpLogRecord env op keyFlags (cmpBuildPath names) stamp tail s).lost = s.lost) :
    (logEntry op keyFlags names stamp tail).encode.length ≤ cmpHiveMaxBytes ∧
      (cmpLogRecord env op keyFlags (cmpBuildPath names) stamp tail s).log =
        s.log ++ (logEntry op keyFlags names stamp tail).encode := by
  rw [cmpLogRecord_eq] at h ⊢
  simp only at h ⊢
  split at h
  · exact absurd h (Nat.succ_ne_self _)
  · rename_i hcap
    rw [if_neg hcap]
    split at h
    · rename_i hw
      rw [if_pos hw]
      exact ⟨by omega, rfl⟩
    · exact absurd h (Nat.succ_ne_self _)

theorem cmpLogRecord_root {path : WStr} :
    (cmpLogRecord env op keyFlags path stamp tail s).root = s.root := by
  simp only [cmpLogRecord]
  split
  · rfl
  split
  · rfl
  split <;> rfl

end

theorem logEntry_fits {op keyFlags : UInt8} {names : List WStr} {stamp : UInt64} {tail : LogTail}
    (hnames : ∀ m ∈ names, m.length ≤ 256) (hlen : names.length ≤ 96)
    (hcap : (logEntry op keyFlags names stamp tail).encode.length ≤ cmpHiveMaxBytes) :
    (logEntry op keyFlags names stamp tail).Fits where
  path_lt := by
    have : (cmpBuildPath names).length ≤ 257 * names.length := length_cmpBuildPath_le names hnames
    exact Nat.lt_of_le_of_lt this (by omega)
  count_lt := by cases tail <;> simp [logEntry, LogTail.valueCount]
  length_lt := by simp only [cmpHiveMaxBytes] at hcap; omega

/-! ## What path resolution promises -/

/-- A resolved name: the key it found is there, and where it found none the parent is there and the
last component may be created in it. -/
structure Resolved.Good (root : Key) (r : Resolved) : Prop where
  found : ∀ q, r.found = some q → (root.get? q).isSome
  parent : r.found = none → ∃ p node, r.parent = some p ∧ root.get? p = some node ∧
    ValidName r.leaf ∧ cmpFindSubkey node r.leaf = none

section
variable {env : Env} {root : Key} {p q : Pos} {path leaf component rest : WStr}

theorem cmpNextComponent_some (h : cmpNextComponent path = some (component, rest)) :
    component ≠ [] ∧ backslash ∉ component := by
  rw [cmpNextComponent] at h
  split at h
  · cases h
  rename_i hne
  simp only [some.injEq, Prod.mk.injEq] at h
  obtain ⟨rfl, -⟩ := h
  constructor
  · -- the unit at which the separators end starts the component
    cases hdrop : path.dropWhile (· = backslash) with
    | nil => exact absurd hdrop hne
    | cons c cs =>
      have hc := head_dropWhile_not (· = backslash) (l := path) (by simp [hdrop])
      simp only [hdrop, head_cons, decide_eq_false_iff_not] at hc
      simp [hc]
  · intro hmem
    have := mem_takeWhile_imp hmem
    simp at this

theorem childAt_isSome (h : childAt root p leaf = some q) : (root.get? q).isSome := by
  simp only [childAt, bind_eq_some_iff, map_eq_some_iff] at h
  obtain ⟨node, hnode, i, hi, rfl⟩ := h
  obtain ⟨l1, c, l2, hsub, rfl, -, -⟩ := cmpFindSubkey_eq_some_iff.mp hi
  simp [Key.get?_append, hnode, Key.get?, hsub]

def WalkEnd.Good (root : Key) : WalkEnd → Prop
  | .stop q leaf => (leaf = [] ∨ ValidName leaf) ∧ (root.get? q).isSome
  | .link q _ => (root.get? q).isSome

theorem openWalk_good {rounds : Nat} {e : WalkEnd} (hp : (root.get? p).isSome)
    (h : openWalk root rounds p path = .ok e) : e.Good root := by
  induction rounds generalizing p path with
  | zero => cases h; exact ⟨.inl rfl, hp⟩
  | succ rounds ih =>
    rw [openWalk] at h
    split at h
    · cases h; exact ⟨.inl rfl, hp⟩
    split at h
    · cases h
    split at h
    · cases h
    rename_i q hq
    split at h
    · cases h; exact childAt_isSome hq
    · exact ih (childAt_isSome hq) h

theorem createWalk_good {rounds : Nat} {e : WalkEnd} (hp : (root.get? p).isSome)
    (hleaf : leaf = [] ∨ ValidName leaf) (h : createWalk root rounds p leaf path = .ok e) :
    e.Good root := by
  induction rounds generalizing p leaf path with
  | zero => cases h; exact ⟨hleaf, hp⟩
  | succ rounds ih =>
    rw [createWalk] at h
    split at h
    · cases h; exact ⟨hleaf, hp⟩
    rename_i component rest hnext
    obtain ⟨hne, hsep⟩ := cmpNextComponent_some hnext
    split at h
    · cases h
    rename_i hlen
    have hvalid : ValidName component := ⟨hne, by omega, hsep⟩
    split at h
    · exact ih hp (.inr hvalid) h
    split at h
    · cases h
    rename_i q hq
    split at h
    · cases h; exact childAt_isSome hq
    · exact ih (childAt_isSome hq) (.inr hvalid) h

variable {forCreate openLink : Bool} {r : Resolved}

theorem resolvePass_good {follow : Pos → WStr → Except NtStatus Resolved}
    (hfollow : ∀ q remainder r, follow q remainder = .ok r → r.Good root)
    (hp : (root.get? p).isSome) (h : resolvePass root forCreate openLink follow p path = .ok r) :
    r.Good root := by
  rw [resolvePass] at h
  simp only at h
  have hwalk : ∀ e, (if forCreate then createWalk root (path.length + 1) p [] path
      else openWalk root (path.length + 1) p path) = .ok e → e.Good root := by
    intro e he
    split at he
    · exact createWalk_good hp (.inl rfl) he
    · exact openWalk_good hp he
  split at h
  · cases h
  · exact hfollow _ _ _ h
  · rename_i q leaf hend
    obtain ⟨hleaf, hq⟩ := hwalk _ hend
    split at h
    · split at h
      · exact hfollow _ _ _ h
      · rename_i q' hfound hlink
        cases h
        refine ⟨fun q1 h1 => ?_, fun hnone => absurd (hfound.symm.trans hnone) (by simp)⟩
        split at h1
        · cases h1; exact hq
        · exact childAt_isSome h1
    · rename_i hfound
      cases h
      by_cases hnil : leaf = []
      · simp [hnil] at hfound
      · rw [if_neg hnil] at hfound ⊢
        refine ⟨fun q1 h1 => absurd (hfound.symm.trans h1) (by simp), fun _ => ?_⟩
        obtain ⟨node, hnode⟩ := isSome_iff_exists.mp hq
        refine ⟨q, node, rfl, hnode, hleaf.resolve_left hnil, ?_⟩
        simpa [childAt, hnode] using hfound

theorem resolveFrom_good {expansions : Nat} (hp : (root.get? p).isSome)
    (h : resolveFrom env root forCreate openLink expansions p path = .ok r) : r.Good root := by
  induction expansions generalizing p path r with
  | zero => exact resolvePass_good (fun q remainder r hr => absurd hr (by simp)) hp h
  | succ expansions ih =>
    refine resolvePass_good (fun q remainder r hr => ?_) hp h
    split at hr
    · cases hr
    split at hr
    · cases hr
    · exact ih rfl hr

/-- **Path resolution.** What `CmpResolvePath` gives back can be used as it stands. -/
theorem cmpResolvePath_good {name : KeyPath}
    (h : cmpResolvePath env root name forCreate openLink = .ok r) : r.Good root := by
  unfold cmpResolvePath at h
  split at h
  · exact resolveFrom_good rfl h
  · cases h
  · split at h
    · cases h
    split at h
    · cases h
    rename_i hbase
    exact resolveFrom_good (isSome_iff_ne_none.mpr (by simpa using hbase)) h

end

/-! ## Keys that a replay keeps in place -/

def SameHead (a b : Key) : Prop := a.name = b.name ∧ a.isVolatile = b.isVolatile

variable {k : Key}

theorem SameHead.rfl : SameHead k k := ⟨Eq.refl _, Eq.refl _⟩

theorem SameHead.trans {a b c : Key} (h : SameHead a b) (h' : SameHead b c) : SameHead a c :=
  ⟨h.1.trans h'.1, h.2.trans h'.2⟩

theorem sameHead_modifyAt {p : Pos} {f : Key → Key}
    (h : ∀ n, k.get? p = some n → SameHead (f n) n) : SameHead (k.modifyAt f p) k := by
  cases p with
  | nil => exact h k (Eq.refl _)
  | cons i p => exact ⟨Eq.refl _, Eq.refl _⟩

theorem cmpWalkSegments_sameHead {now : UInt64} {create : Bool} {depth : Nat} {names : List WStr}
    {k' : Key} {p : Pos} (h : cmpWalkSegments now create depth names k = some (k', p)) :
    SameHead k' k := by
  cases names with
  | nil => cases h; exact SameHead.rfl
  | cons n names =>
    rw [cmpWalkSegments] at h
    split at h
    · cases h
    simp only at h
    split at h
    · split at h
      · cases h
      · obtain ⟨r, -, hr⟩ := map_eq_some_iff.mp h
        cases hr; exact ⟨Eq.refl _, Eq.refl _⟩
    · split at h
      · split at h
        · rename_i hnode
          rw [cmpAllocateNode] at hnode
          split at hnode
          · cases hnode
          cases hnode
          split at h
          · cases h
          · obtain ⟨r, -, hr⟩ := map_eq_some_iff.mp h
            cases hr; exact ⟨Eq.refl _, Eq.refl _⟩
        · cases h
      · cases h

theorem cmpResolveRecordKey_sameHead {now : UInt64} {create : Bool} {depth : Nat} {path : WStr}
    {k' : Key} {p : Pos} (h : cmpResolveRecordKey now depth k path create = some (k', p)) :
    SameHead k' k := by
  rw [cmpResolveRecordKey] at h
  split at h
  · cases h; exact SameHead.rfl
  simp only at h
  split at h
  · cases h
  split at h
  · cases h
  split at h
  · cases h
  rename_i node hnode
  obtain ⟨r, hr, heq⟩ := map_eq_some_iff.mp h
  cases heq
  refine sameHead_modifyAt fun n hn => ?_
  rw [hnode] at hn
  cases hn
  exact cmpWalkSegments_sameHead hr

theorem cmpApplyValues_sameHead (count : Nat) (tail : List UInt8) (k : Key) :
    SameHead (cmpApplyValues count tail k).1 k := by
  induction count generalizing tail k with
  | zero => exact SameHead.rfl
  | succ count ih =>
    rw [cmpApplyValues]
    split
    · exact SameHead.rfl
    · simp only
      split
      · exact SameHead.rfl
      · exact (ih _ _).trans ⟨Eq.refl _, Eq.refl _⟩

theorem cmpApplyRecord_sameHead (now : UInt64) (depth : Nat) (k : Key) (record : Record) :
    SameHead (cmpApplyRecord now depth k record).1 k := by
  rw [cmpApplyRecord]
  simp only
  split
  · split
    · exact SameHead.rfl
    · rename_i hres
      refine SameHead.trans ?_ (cmpResolveRecordKey_sameHead hres)
      exact sameHead_modifyAt fun n _ => ⟨Eq.refl _, Eq.refl _⟩
  split
  · exact SameHead.rfl
  split
  · exact SameHead.rfl
  rename_i node hnode
  have hconst : ∀ {f : Key → Key}, SameHead (f node) node → ∀ p', k.get? p' = some node →
      SameHead (k.modifyAt (fun _ => f node) p') k := by
    intro f hf p' hp'
    refine sameHead_modifyAt fun n hn => ?_
    rw [hp'] at hn; cases hn; exact hf
  split
  · exact @hconst (fun n => (cmpApplyValues record.valueCount record.tail
      { n with lastWriteTime := record.lastWriteTime }).1)
      ((cmpApplyValues_sameHead _ _ _).trans ⟨Eq.refl _, Eq.refl _⟩) _ hnode
  split
  · split
    · exact SameHead.rfl
    split
    · exact SameHead.rfl
    · exact sameHead_modifyAt fun n _ => ⟨Eq.refl _, Eq.refl _⟩
  split
  · split
    · exact SameHead.rfl
    · refine sameHead_modifyAt fun n hn => ?_
      rw [hnode] at hn; cases hn
      rw [cmpRemoveValue]
      split <;> exact ⟨Eq.refl _, Eq.refl _⟩
  split
  · split
    · split
      · exact SameHead.rfl
      · refine sameHead_modifyAt fun n _ => ?_
        rw [cmpRenameNode]
        split <;> exact ⟨Eq.refl _, Eq.refl _⟩
    · exact SameHead.rfl
  · exact SameHead.rfl

theorem applyValuesOn_sameHead (pool : RecordPool) (count : Nat) (tail : List UInt8) (k : Key) :
    SameHead (applyValuesOn pool count tail k).1 k := by
  induction count generalizing pool tail k with
  | zero => exact SameHead.rfl
  | succ count ih =>
    rw [applyValuesOn]
    split
    · exact SameHead.rfl
    · simp only
      split
      · exact SameHead.rfl
      · split
        · exact SameHead.rfl
        · exact (ih _ _ _).trans ⟨Eq.refl _, Eq.refl _⟩

theorem applyRecordOn_sameHead (now : UInt64) (pool : RecordPool) (depth : Nat) (k : Key)
    (record : Record) : SameHead (applyRecordOn now pool depth k record).1 k := by
  rw [applyRecordOn]
  split
  · split
    · exact SameHead.rfl
    · split
      · exact SameHead.rfl
      · rename_i node hnode
        refine sameHead_modifyAt fun n hn => ?_
        rw [hnode] at hn
        cases hn
        exact (applyValuesOn_sameHead _ _ _ _).trans ⟨Eq.refl _, Eq.refl _⟩
  · split
    · exact SameHead.rfl
    · exact cmpApplyRecord_sameHead now depth k record

theorem replayRecordsOn_sameHead (now : UInt64) (pool : Nat → RecordPool) (depth rounds : Nat)
    (k : Key) (bytes : List UInt8) (applied : Nat) :
    SameHead (replayRecordsOn now pool depth rounds k bytes applied).1 k := by
  induction rounds generalizing k bytes applied with
  | zero => exact SameHead.rfl
  | succ rounds ih =>
    rw [replayRecordsOn]
    split
    · exact SameHead.rfl
    rename_i record rest _
    have happly := applyRecordOn_sameHead now (pool applied) depth k record
    split
    · rename_i hap
      rw [hap] at happly
      exact (ih _ _ _).trans happly
    · rename_i hap
      rw [hap] at happly
      exact happly

theorem parseImage_sameHead (env : Env) (depth : Nat) (k : Key) (image : List UInt8) :
    SameHead (parseImage env depth k image).2 k := by
  have hreplay := replayRecordsOn_sameHead env.now env.replayPool depth image.length k
    (image.drop 16) 0
  have hfree : ∀ n : Key, SameHead (cmpFreeSubtreeContents n) n := fun n => ⟨Eq.refl _, Eq.refl _⟩
  rw [parseImage]
  split
  · exact SameHead.rfl
  split
  · exact SameHead.rfl
  simp only
  split
  · exact hreplay
  · exact (hfree _).trans hreplay

/-! ### The replay with enough pool -/

theorem applyValuesOn_enough (count : Nat) (tail : List UInt8) (k : Key) :
    applyValuesOn .enough count tail k = cmpApplyValues count tail k := by
  induction count generalizing tail k with
  | zero => rfl
  | succ count ih =>
    simp only [applyValuesOn, cmpApplyValues, RecordPool.isEmpty, Bool.false_and,
      Bool.false_eq_true, if_false, RecordPool.afterValue, ih]

theorem applyRecordOn_enough (now : UInt64) (depth : Nat) (k : Key) (record : Record) :
    applyRecordOn now .enough depth k record = cmpApplyRecord now depth k record := by
  rw [applyRecordOn]
  split
  · rename_i hop
    have hcreate : cmpOpSetValues ≠ cmpOpCreateKey := by decide
    simp only [cmpApplyRecord, hop, if_neg hcreate, if_true]
    cases cmpResolveRecordKey now depth k record.path false with
    | none => rfl
    | some found =>
      cases hnode : k.get? found.2 with
      | none => simp only [hnode]
      | some node => simp only [hnode, applyValuesOn_enough]
  · exact if_neg fun h => h.1 rfl

theorem replayRecordsOn_enough (now : UInt64) (depth rounds : Nat) (k : Key) (bytes : List UInt8)
    (applied : Nat) : replayRecordsOn now (fun _ => .enough) depth rounds k bytes applied =
      cmpReplayRecords now depth rounds k bytes applied := by
  induction rounds generalizing k bytes applied with
  | zero => rfl
  | succ rounds ih =>
    rw [replayRecordsOn, cmpReplayRecords]
    cases cmpReadRecord bytes with
    | none => rfl
    | some read =>
      simp only [applyRecordOn_enough]
      cases cmpApplyRecord now depth k read.1 with
      | mk top applies =>
        cases applies with
        | false => rfl
        | true => exact ih top read.2 (applied + 1)

/-- With enough pool the parse is the one that the round trip of a snapshot is about. -/
theorem parseImage_enough {env : Env} (h : env.replayPool = fun _ => .enough) (depth : Nat)
    (k : Key) (image : List UInt8) :
    parseImage env depth k image = cmpParseSubtreeInto env.now depth k image := by
  rw [parseImage, cmpParseSubtreeInto, cmpReplayImage, h, replayRecordsOn_enough]
  by_cases hdone : (cmpReplayRecords env.now depth image.length k (image.drop 16) 0).2.1 = [] ∧
      (cmpReplayRecords env.now depth image.length k (image.drop 16) 0).2.2 ≠ 0
  · simp [hdone]
  · simp [hdone]

end Proskrnl.Cm
