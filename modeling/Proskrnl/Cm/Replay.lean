import Mathlib
import Proskrnl.Abi.Status
import Proskrnl.Library.ListUpdate
import Proskrnl.Cm.Record

/-!
# Replaying a hive image

`kernel/cm/hive.c`, from `CmpResolveRecordKey` to `CmpReplayImage`: a record names its key by its
path below the image's top key, and the log is applied record by record until one is malformed or
refused. Pool allocations succeed here; the services say where running out of pool ends a replay.
-/

namespace Proskrnl.Cm
open Bytes ListUpdate List Option

def cmpOpCreateKey : UInt8 := 1
def cmpOpDeleteKey : UInt8 := 2
def cmpOpSetValues : UInt8 := 3
def cmpOpDeleteValue : UInt8 := 4
def cmpOpRenameKey : UInt8 := 5

/-- The last component of a path: what follows its last separator. -/
def pathLeaf (path : WStr) : WStr := (path.reverse.takeWhile (· ≠ backslash)).reverse

/-- `CmpResolveRecordKey` under `top` at depth `depth`: only the last component is ever created. -/
def cmpResolveRecordKey (now : UInt64) (depth : Nat) (top : Key) (path : WStr) (create : Bool) :
    Option (Key × Pos) :=
  if path = [] then some (top, [])
  else
    let leaf := pathLeaf path
    let split := path.length - leaf.length
    let parent :=
      if split > 0 then cmpWalkPathCounted now depth top (path.take (split - 1)) false
      else some (top, [])
    match parent with
    | none => none
    | some (_, p) =>
      if leaf = [] then none
      else
        match top.get? p with
        | none => none
        | some node =>
          (cmpWalkPathCounted now (depth + p.length) node leaf create).map fun r =>
            (top.modifyAt (fun _ => r.1) p, p ++ r.2)

/-- The tree after the record, also where the record is refused half way, and
whether the replay goes on. -/
def cmpApplyRecord (now : UInt64) (depth : Nat) (top : Key) (record : Record) : Key × Bool :=
  let stamp := record.lastWriteTime
  if record.op = cmpOpCreateKey then
    match cmpResolveRecordKey now depth top record.path true with
    | none => (top, false)
    | some (top, p) =>
      (top.modifyAt (fun node =>
          { node with lastWriteTime := stamp, isLink := decide (record.keyFlags &&& 1 ≠ 0) }) p,
        decide (record.keyFlags &&& ~~~1 = 0))
  else
    match cmpResolveRecordKey now depth top record.path false with
    | none => (top, false)
    | some (_, p) =>
      match top.get? p with
      | none => (top, false)
      | some node =>
        if record.op = cmpOpSetValues then
          let r := cmpApplyValues record.valueCount record.tail { node with lastWriteTime := stamp }
          (top.modifyAt (fun _ => r.1) p, r.2)
        else if record.op = cmpOpDeleteKey then
          match p.getLast? with
          | none => (top, false)
          | some i =>
            if node.subkeys ≠ [] then (top, false)
            else
              (top.modifyAt (fun parent =>
                { parent with
                  lastWriteTime := stamp, subkeys := parent.subkeys.eraseIdx i }) p.dropLast, true)
        else if record.op = cmpOpDeleteValue then
          match cmpReadTailName record.tail with
          | none => (top, false)
          | some name =>
            let node := { node with lastWriteTime := stamp }
            (top.modifyAt (fun _ => (cmpRemoveValue node name).getD node) p, true)
        else if record.op = cmpOpRenameKey then
          match p.getLast?, cmpReadTailName record.tail with
          | some i, some newName =>
            if newName = [] then (top, false)
            else
              -- the stamp does not move the node among its siblings, so it is set first
              (top.modifyAt (fun parent => cmpRenameNode
                { parent with
                  subkeys := parent.subkeys.modify i fun c => { c with lastWriteTime := stamp } }
                i newName) p.dropLast, true)
          | _, _ => (top, false)
        else (top, false)

/-- The loop of `CmpReplayImage` over the bytes after the header: the tree, the bytes from the
reader's offset on, and the number of records applied. A record takes at least 24 bytes, so the
number of bytes bounds the rounds. -/
def cmpReplayRecords (now : UInt64) (depth : Nat) :
    Nat → Key → List UInt8 → Nat → Key × List UInt8 × Nat
  | 0, top, rest, applied => (top, rest, applied)
  | rounds + 1, top, rest, applied =>
    match cmpReadRecord rest with
    | none => (top, rest, applied)
    | some (record, rest) =>
      match cmpApplyRecord now depth top record with
      | (top, true) => cmpReplayRecords now depth rounds top rest (applied + 1)
      | (top, false) => (top, rest, applied)

def cmpHiveMaxBytes : Nat := 64 * 2 ^ 20

/-- The 16 bytes in front of the records: "PHV2", version 2 and two reserved words. -/
def hiveHeader : List UInt8 := le 4 0x32564850 ++ le 4 2 ++ le 4 0 ++ le 4 0

def cmpFreeSubtreeContents (node : Key) : Key := { node with values := [], subkeys := [] }

/-- `CmpReplayImage` into `top` at depth `depth`. -/
def cmpReplayImage (now : UInt64) (depth : Nat) (top : Key) (buffer : List UInt8)
    (keepPrefix : Bool) : NtStatus × Key :=
  if buffer.length < 16 ∨ buffer.length > cmpHiveMaxBytes ∨ field buffer 0 4 ≠ 0x32564850 ∨
      field buffer 4 4 ≠ 2 then (statusNotRegistryFile, top)
  else if depth = 0 ∨ depth > cmpHiveMaxDepth then (statusNotRegistryFile, top)
  else
    let r := cmpReplayRecords now depth buffer.length top (buffer.drop 16) 0
    let complete := r.2.1 = [] ∧ r.2.2 ≠ 0
    if ¬ complete ∧ ¬ keepPrefix then (statusNotRegistryFile, cmpFreeSubtreeContents r.1)
    else (statusSuccess, r.1)

def cmpParseSubtreeInto (now : UInt64) (depth : Nat) (top : Key) (buffer : List UInt8) :
    NtStatus × Key :=
  cmpReplayImage now depth top buffer false

/-- A name a service may give a key: 1 to 256 units, none of them a separator. -/
structure ValidName (name : WStr) : Prop where
  ne_nil : name ≠ []
  length_le : name.length ≤ 256
  no_separator : backslash ∉ name

instance (name : WStr) : Decidable (ValidName name) :=
  decidable_of_iff (name ≠ [] ∧ name.length ≤ 256 ∧ backslash ∉ name)
    ⟨fun h => ⟨h.1, h.2.1, h.2.2⟩, fun h => ⟨h.1, h.2, h.3⟩⟩

variable {name s : WStr} {k k' : Key} {f : Key → Option Key}

theorem cmpBuildPath_cons {names : List WStr} (hname : ValidName name)
    (hnames : ∀ n ∈ names, ValidName n) :
    cmpBuildPath (name :: names) = name ++ names.flatMap (backslash :: ·) := by
  have key : ∀ used : WStr, used ≠ [] → names.foldl (fun used name =>
      if name = [] then used else if used = [] then name else used ++ backslash :: name) used =
      used ++ names.flatMap (backslash :: ·) := by
    induction names with
    | nil => simp
    | cons n names ih =>
      intro used hused
      have hn := (hnames n mem_cons_self).ne_nil
      rw [foldl_cons, if_neg hn, if_neg hused,
        ih (fun m hm => hnames m (.tail _ hm)) _ (by simp)]
      simp
  rw [cmpBuildPath, foldl_cons, if_neg hname.ne_nil, if_pos rfl, key _ hname.ne_nil]

theorem pathSegments_of_no_separator (hne : s ≠ []) (hs : backslash ∉ s) :
    pathSegments s = [s] := by
  induction s with
  | nil => exact absurd rfl hne
  | cons c s ih =>
    have hc : c ≠ backslash := fun h => hs (h ▸ mem_cons_self)
    rw [pathSegments, if_neg hc]
    cases s with
    | nil => rfl
    | cons d s => rw [ih (by simp) fun h => hs (.tail _ h)]

theorem pathSegments_append (t : WStr) (hne : s ≠ []) (hs : backslash ∉ s) :
    pathSegments (s ++ backslash :: t) = s :: pathSegments t := by
  induction s with
  | nil => exact absurd rfl hne
  | cons c s ih =>
    have hc : c ≠ backslash := fun h => hs (h ▸ mem_cons_self)
    rw [cons_append, pathSegments, if_neg hc]
    cases s with
    | nil => rw [nil_append, pathSegments, if_pos rfl]
    | cons d s => rw [ih (by simp) fun h => hs (.tail _ h)]

theorem pathSegments_cmpBuildPath {names : List WStr} (hnames : ∀ n ∈ names, ValidName n) :
    pathSegments (cmpBuildPath names) = names := by
  induction names with
  | nil => rfl
  | cons n names ih =>
    have hn := hnames n mem_cons_self
    have hrest := fun m hm => hnames m (.tail _ hm)
    rw [cmpBuildPath_cons hn hrest]
    cases names with
    | nil =>
      rw [flatMap_nil, append_nil]
      exact pathSegments_of_no_separator hn.ne_nil hn.no_separator
    | cons m names =>
      have hm := hrest m mem_cons_self
      have hjoin : (m :: names).flatMap (backslash :: ·) =
          backslash :: cmpBuildPath (m :: names) := by
        rw [cmpBuildPath_cons hm fun k hk => hrest k (.tail _ hk)]
        simp
      rw [hjoin, pathSegments_append _ hn.ne_nil hn.no_separator, ih hrest]

theorem cmpBuildPath_ne_nil {names : List WStr} (hname : ValidName name)
    (hnames : ∀ n ∈ names, ValidName n) : cmpBuildPath (name :: names) ≠ [] := by
  rw [cmpBuildPath_cons hname hnames]
  exact append_ne_nil_of_left_ne_nil hname.ne_nil _

theorem length_cmpBuildPath_le (names : List WStr) (hnames : ∀ n ∈ names, n.length ≤ 256) :
    (cmpBuildPath names).length ≤ 257 * names.length := by
  induction names using List.reverseRecOn with
  | nil => simp [cmpBuildPath]
  | append_singleton names n ih =>
    have hn := hnames n (by simp)
    have ih := ih fun m hm => hnames m (by simp [hm])
    rw [cmpBuildPath] at ih ⊢
    rw [foldl_append, foldl_cons, foldl_nil]
    split
    · simp only [length_append, length_singleton]; omega
    · split
      · simp only [length_append, length_singleton]; omega
      · simp only [length_append, length_cons]; omega

theorem cmpBuildPath_concat {names : List WStr} (hname : ValidName name)
    (hnames : ∀ n ∈ names, ValidName n) :
    cmpBuildPath (names ++ [name]) =
      if names = [] then name else cmpBuildPath names ++ backslash :: name := by
  have hcat : cmpBuildPath (names ++ [name]) =
      if cmpBuildPath names = [] then name else cmpBuildPath names ++ backslash :: name := by
    rw [cmpBuildPath, foldl_append]
    exact if_neg hname.ne_nil
  rw [hcat]
  cases names with
  | nil => rfl
  | cons n names =>
    rw [if_neg (cmpBuildPath_ne_nil (hnames n mem_cons_self) fun m hm =>
      hnames m (.tail _ hm)), if_neg (by simp)]

theorem pathLeaf_of_no_separator (hs : backslash ∉ s) : pathLeaf s = s := by
  rw [pathLeaf, takeWhile_eq_self_iff.mpr, reverse_reverse]
  intro c hc
  have : c ≠ backslash := fun h => hs (h ▸ mem_reverse.mp hc)
  simpa using this

theorem pathLeaf_append (s : WStr) {t : WStr} (ht : backslash ∉ t) :
    pathLeaf (s ++ backslash :: t) = t := by
  have hall : ∀ c ∈ t.reverse, decide (c ≠ backslash) = true := by
    intro c hc
    have : c ≠ backslash := fun h => ht (h ▸ mem_reverse.mp hc)
    simpa using this
  rw [pathLeaf, reverse_append, reverse_cons, append_assoc, singleton_append,
    takeWhile_append_of_pos hall, takeWhile_cons_of_neg (by simp), append_nil,
    reverse_reverse]

/-- A record's key under its parent: the parent is walked to, the last component is looked up or
created there. -/
theorem cmpResolveRecordKey_concat {names : List WStr} (hname : ValidName name)
    (hnames : ∀ n ∈ names, ValidName n) (now : UInt64) (depth : Nat) (top : Key)
    (create : Bool) :
    cmpResolveRecordKey now depth top (cmpBuildPath (names ++ [name])) create =
      match cmpWalkSegments now false depth names top with
      | none => none
      | some (_, p) =>
        match top.get? p with
        | none => none
        | some node =>
          (cmpWalkSegments now create (depth + p.length) [name] node).map fun r =>
            (top.modifyAt (fun _ => r.1) p, p ++ r.2) := by
  have hleaf : pathSegments name = [name] :=
    pathSegments_of_no_separator hname.ne_nil hname.no_separator
  have hpath := cmpBuildPath_concat hname hnames
  cases names with
  | nil =>
    rw [if_pos rfl] at hpath
    rw [hpath, cmpResolveRecordKey, if_neg hname.ne_nil]
    simp only [pathLeaf_of_no_separator hname.no_separator, Nat.sub_self, Nat.lt_irrefl, gt_iff_lt,
      if_false, if_neg hname.ne_nil, cmpWalkSegments, cmpWalkPathCounted, hleaf]
  | cons n names =>
    rw [if_neg (by simp)] at hpath
    have hlen : (cmpBuildPath (n :: names) ++ backslash :: name).length - name.length =
        (cmpBuildPath (n :: names)).length + 1 := by
      rw [length_append, length_cons]; omega
    rw [hpath, cmpResolveRecordKey, if_neg (by simp)]
    simp only [pathLeaf_append _ hname.no_separator, hlen, Nat.add_sub_cancel,
      Nat.succ_pos, gt_iff_lt, if_true, if_neg hname.ne_nil, cmpWalkPathCounted, hleaf,
      take_left', pathSegments_cmpBuildPath hnames]

def Key.locate : List WStr → Key → Option Pos
  | [], _ => some []
  | c :: cs, k =>
    (cmpFindSubkey k c).bind fun i => (k.subkeys[i]?).bind fun ch => (ch.locate cs).map (i :: ·)

/-- Change the key that components lead to; `none` when there is none or `f` refuses. -/
def Key.updatePath : List WStr → (Key → Option Key) → Key → Option Key
  | [], f, k => f k
  | c :: cs, f, k =>
    (updateFirst (fun x => rtlEqualUnicodeString x.name c) (Key.updatePath cs f) k.subkeys).map
      fun subkeys => { k with subkeys }

theorem cmpFindSubkey_eq_some_iff {i : Nat} :
    cmpFindSubkey k name = some i ↔
      ∃ l1 c l2, k.subkeys = l1 ++ c :: l2 ∧ l1.length = i ∧
        rtlEqualUnicodeString c.name name = true ∧
        ∀ a ∈ l1, rtlEqualUnicodeString a.name name = false :=
  findIdx?_eq_some_iff_append

theorem cmpFindSubkey_eq_none_iff :
    cmpFindSubkey k name = none ↔ ∀ c ∈ k.subkeys, rtlEqualUnicodeString c.name name = false :=
  findIdx?_eq_none_iff

theorem cmpWalkSegments_false {names : List WStr} (hnames : ∀ n ∈ names, n ≠ [])
    (now : UInt64) (depth : Nat) (k : Key) :
    cmpWalkSegments now false depth names k = (k.locate names).map (k, ·) := by
  induction names generalizing k depth with
  | nil => rfl
  | cons n names ih =>
    have ih := ih fun m hm => hnames m (.tail _ hm)
    rw [cmpWalkSegments, if_neg (hnames n mem_cons_self), Key.locate]
    cases hfind : cmpFindSubkey k n with
    | none => rfl
    | some i =>
      obtain ⟨l1, c, l2, hsub, rfl, -, -⟩ := cmpFindSubkey_eq_some_iff.mp hfind
      simp only [hsub, getElem?_append_cons, bind_some, ih, Option.map_map]
      cases c.locate names with
      | none => rfl
      | some p => cases k; cases hsub; simp

theorem Key.locate_append (a b : List WStr) (k : Key) :
    k.locate (a ++ b) =
      (k.locate a).bind fun p => (k.get? p).bind fun n => (n.locate b).map (p ++ ·) := by
  induction a generalizing k with
  | nil => cases h : k.locate b <;> simp [Key.locate, Key.get?, h]
  | cons n a ih =>
    rw [cons_append, Key.locate, Key.locate]
    cases hfind : cmpFindSubkey k n with
    | none => rfl
    | some i =>
      cases hchild : k.subkeys[i]? with
      | none => simp [hchild]
      | some c =>
        simp only [bind_some, hchild, ih, bind_map]
        cases c.locate a with
        | none => rfl
        | some p =>
          simp only [bind_some, Function.comp, Key.get?, hchild]
          cases c.get? p with
          | none => rfl
          | some n => simp [Option.map_map, Function.comp_def]

theorem Key.updatePath_eq (names : List WStr) (f : Key → Option Key) (k : Key) :
    k.updatePath names f =
      (k.locate names).bind fun p => (k.get? p).bind fun n =>
        (f n).map fun n' => k.modifyAt (fun _ => n') p := by
  induction names generalizing k with
  | nil => cases h : f k <;> simp [Key.updatePath, Key.locate, Key.get?, Key.modifyAt, h]
  | cons n names ih =>
    rw [Key.updatePath, Key.locate]
    cases hfind : cmpFindSubkey k n with
    | none => rw [updateFirst_eq_none hfind]; rfl
    | some i =>
      obtain ⟨l1, c, l2, hsub, rfl, hc, h1⟩ := cmpFindSubkey_eq_some_iff.mp hfind
      simp only [hsub, updateFirst_append h1 hc, getElem?_append_cons, bind_some, ih]
      cases c.locate names with
      | none => rfl
      | some p =>
        simp only [bind_some, map_some, Key.get?, hsub, getElem?_append_cons]
        cases c.get? p with
        | none => rfl
        | some n =>
          simp only [bind_some, Key.modifyAt, hsub, modify_append_cons, Option.map_map]
          cases f n <;> rfl

theorem Key.updatePath_append (a b : List WStr) (f : Key → Option Key) (k : Key) :
    k.updatePath (a ++ b) f = k.updatePath a (Key.updatePath b f) := by
  induction a generalizing k with
  | nil => rfl
  | cons c a ih =>
    have : Key.updatePath (a ++ b) f = Key.updatePath a (Key.updatePath b f) := funext ih
    rw [cons_append, Key.updatePath, Key.updatePath, this]

theorem Key.updatePath_name {names : List WStr} (hf : ∀ k k', f k = some k' → k'.name = k.name)
    (h : k.updatePath names f = some k') : k'.name = k.name := by
  cases names with
  | nil => exact hf k k' h
  | cons c cs =>
    obtain ⟨subkeys, -, rfl⟩ := map_eq_some_iff.mp h
    rfl

theorem Key.updatePath_mono {names : List WStr} {g : Key → Option Key}
    (hfg : ∀ k k', f k = some k' → g k = some k')
    (h : k.updatePath names f = some k') : k.updatePath names g = some k' := by
  induction names generalizing k k' with
  | nil => exact hfg k k' h
  | cons c cs ih =>
    obtain ⟨subkeys, hs, rfl⟩ := map_eq_some_iff.mp h
    rw [Key.updatePath, updateFirst_mono (fun a a' ha => ih ha) hs]
    rfl

theorem Key.updatePath_eq_self {names : List WStr}
    (hf : ∀ k k', f k = some k' → k' = k) (h : k.updatePath names f = some k') :
    k' = k := by
  induction names generalizing k k' with
  | nil => exact hf k k' h
  | cons c cs ih =>
    obtain ⟨subkeys, hs, rfl⟩ := map_eq_some_iff.mp h
    rw [updateFirst_eq_self (fun a a' ha => ih ha) hs]
    cases k; rfl

/-- An update made in two steps at one key is two updates, when the first step keeps its name. -/
theorem Key.updatePath_split {names : List WStr} {g : Key → Option Key}
    (hf : ∀ k k', f k = some k' → k'.name = k.name)
    (h : k.updatePath names (fun n => (f n).bind g) = some k') :
    ∃ k1, k.updatePath names f = some k1 ∧ k1.updatePath names g = some k' := by
  suffices hbind : (k.updatePath names f).bind (Key.updatePath names g) =
      k.updatePath names (fun n => (f n).bind g) by
    rw [← hbind] at h
    exact bind_eq_some_iff.mp h
  clear h
  induction names generalizing k with
  | nil => rfl
  | cons c cs ih =>
    have hkeep : ∀ a a' : Key, rtlEqualUnicodeString a.name c = true →
        a.updatePath cs f = some a' → rtlEqualUnicodeString a'.name c = true := by
      intro a a' ha hup
      rw [Key.updatePath_name hf hup]; exact ha
    have hstep : Key.updatePath cs (fun n => (f n).bind g) =
        fun a => (a.updatePath cs f).bind (Key.updatePath cs g) := funext fun a => ih.symm
    rw [Key.updatePath, Key.updatePath, hstep, ← updateFirst_bind hkeep]
    cases updateFirst (fun x => rtlEqualUnicodeString x.name c) (Key.updatePath cs f)
        k.subkeys <;> rfl

theorem Key.modifyAt_const_get? {p : Pos} {n : Key} (h : k.get? p = some n)
    (f : Key → Key) : k.modifyAt (fun _ => f n) p = k.modifyAt f p := by
  induction p generalizing k with
  | nil => cases h; rfl
  | cons i p ih =>
    simp only [Key.get?, bind_eq_some_iff] at h
    obtain ⟨c, hc, h⟩ := h
    obtain ⟨l1, l2, hsub, rfl⟩ := eq_append_of_getElem? hc
    simp only [Key.modifyAt, hsub, modify_append_cons, ih h]

theorem Key.modifyAt_self {p : Pos} {n : Key} (h : k.get? p = some n) :
    k.modifyAt (fun _ => n) p = k := by
  induction p generalizing k with
  | nil => cases h; rfl
  | cons i p ih =>
    simp only [Key.get?, bind_eq_some_iff] at h
    obtain ⟨c, hc, h⟩ := h
    obtain ⟨l1, l2, hsub, rfl⟩ := eq_append_of_getElem? hc
    simp only [Key.modifyAt, hsub, modify_append_cons, ih h]
    rw [← hsub, Key.eta]

theorem cmpResolveRecordKey_false {names : List WStr} (hnames : ∀ n ∈ names, ValidName n)
    (now : UInt64) (depth : Nat) (top : Key) :
    cmpResolveRecordKey now depth top (cmpBuildPath names) false =
      (top.locate names).map (top, ·) := by
  induction names using List.reverseRecOn with
  | nil => rfl
  | append_singleton names name _ =>
    have hname := hnames name (by simp)
    have hnames' : ∀ n ∈ names, ValidName n := fun n hn => hnames n (by simp [hn])
    rw [cmpResolveRecordKey_concat hname hnames', Key.locate_append,
      cmpWalkSegments_false fun n hn => (hnames' n hn).ne_nil]
    cases top.locate names with
    | none => rfl
    | some p =>
      simp only [map_some, bind_some]
      cases hget : top.get? p with
      | none => rfl
      | some node =>
        simp only [bind_some, Option.map_map,
          @cmpWalkSegments_false [name] (by simpa using hname.ne_nil)]
        cases node.locate [name] with
        | none => rfl
        | some q =>
          simp only [map_some, Function.comp, some.injEq, Prod.mk.injEq, and_true]
          exact Key.modifyAt_self hget

section
variable {names : List WStr} {record : Record} {top top' : Key}

theorem exists_of_updatePath (hnames : ∀ n ∈ names, ValidName n) {f : Key → Option Key}
    (h : top.updatePath names f = some top') (now : UInt64) (depth : Nat) :
    ∃ p n n', cmpResolveRecordKey now depth top (cmpBuildPath names) false = some (top, p) ∧
      top.locate names = some p ∧ top.get? p = some n ∧ f n = some n' ∧
      top.modifyAt (fun _ => n') p = top' := by
  rw [Key.updatePath_eq] at h
  simp only [bind_eq_some_iff, map_eq_some_iff] at h
  obtain ⟨p, hp, n, hn, n', hf, htop⟩ := h
  exact ⟨p, n, n', by rw [cmpResolveRecordKey_false hnames, hp]; rfl, hp, hn, hf, htop⟩

theorem cmpApplyRecord_setValues (hnames : ∀ n ∈ names, ValidName n)
    (hop : record.op = cmpOpSetValues) (hpath : record.path = cmpBuildPath names) {f : Key → Key}
    (hf : ∀ n, cmpApplyValues record.valueCount record.tail
      { n with lastWriteTime := record.lastWriteTime } = (f n, true))
    (h : top.updatePath names (fun n => some (f n)) = some top') (now : UInt64) (depth : Nat) :
    cmpApplyRecord now depth top record = (top', true) := by
  obtain ⟨p, n, n', hres, -, hget, hfn, rfl⟩ := exists_of_updatePath hnames h now depth
  cases hfn
  simp only [cmpApplyRecord, hop, hpath, hres, hget, hf]
  rfl

variable {name : WStr}

theorem cmpApplyRecord_deleteValue (hnames : ∀ n ∈ names, ValidName n)
    (hop : record.op = cmpOpDeleteValue) (hpath : record.path = cmpBuildPath names)
    (htail : cmpReadTailName record.tail = some name)
    (h : top.updatePath names (fun n => cmpRemoveValue
      { n with lastWriteTime := record.lastWriteTime } name) = some top')
    (now : UInt64) (depth : Nat) : cmpApplyRecord now depth top record = (top', true) := by
  obtain ⟨p, n, n', hres, -, hget, hfn, rfl⟩ := exists_of_updatePath hnames h now depth
  simp only [cmpApplyRecord, hop, hpath, hres, hget, htail, hfn]
  rfl

def deleteChild (stamp : UInt64) (name : WStr) (parent : Key) : Option Key :=
  (cmpFindSubkey parent name).bind fun i => (parent.subkeys[i]?).bind fun child =>
    if child.subkeys = [] then
      some { parent with lastWriteTime := stamp, subkeys := parent.subkeys.eraseIdx i }
    else none

def renameChild (stamp : UInt64) (name newName : WStr) (parent : Key) : Option Key :=
  (cmpFindSubkey parent name).map fun i =>
    cmpRenameNode { parent with
      subkeys := parent.subkeys.modify i fun c => { c with lastWriteTime := stamp } } i newName

def freshKey (stamp : UInt64) (link : Bool) (name : WStr) : Key :=
  { newNode stamp name with isLink := link }

def createChild (stamp : UInt64) (link : Bool) (depth : Nat) (name : WStr) (parent : Key) :
    Option Key :=
  match cmpFindSubkey parent name with
  | some i =>
    some { parent with
      subkeys := parent.subkeys.modify i fun c =>
        { c with lastWriteTime := stamp, isLink := link } }
  | none =>
    if depth ≥ cmpHiveMaxDepth then none
    else
      some { parent with
        subkeys := cmpLinkSubkeySorted parent.subkeys (freshKey stamp link name) }

theorem Key.get?_append (k : Key) (p q : Pos) :
    k.get? (p ++ q) = (k.get? p).bind fun n => n.get? q := by
  induction p generalizing k with
  | nil => rfl
  | cons i p ih =>
    rw [cons_append, Key.get?, Key.get?, bind_assoc]
    cases k.subkeys[i]? with
    | none => rfl
    | some c => exact ih c

theorem Key.locate_length {k : Key} {p : Pos} (h : k.locate names = some p) :
    p.length = names.length := by
  induction names generalizing k p with
  | nil => cases h; rfl
  | cons n names ih =>
    simp only [Key.locate, bind_eq_some_iff, map_eq_some_iff] at h
    obtain ⟨i, -, c, -, q, hq, rfl⟩ := h
    rw [length_cons, length_cons, ih hq]

theorem Key.modifyAt_append (f : Key → Key) (p q : Pos) (k : Key) :
    k.modifyAt f (p ++ q) = k.modifyAt (fun n => n.modifyAt f q) p := by
  induction p generalizing k with
  | nil => rfl
  | cons i p ih =>
    have : Key.modifyAt f (p ++ q) = Key.modifyAt (fun n => n.modifyAt f q) p := funext fun k => ih k
    rw [cons_append, Key.modifyAt, Key.modifyAt, this]

theorem Key.modifyAt_modifyAt (f g : Key → Key) (p : Pos) (k : Key) :
    (k.modifyAt f p).modifyAt g p = k.modifyAt (fun n => g (f n)) p := by
  induction p generalizing k with
  | nil => rfl
  | cons i p ih =>
    simp only [Key.modifyAt, modify_modify_eq]
    congr 2
    exact funext fun k => ih k

section
variable (hname : ValidName name) (hnames : ∀ n ∈ names, ValidName n)
include hname hnames

theorem cmpResolveRecordKey_child {p : Pos} {n child : Key} {i : Nat} (now : UInt64)
    (depth : Nat) (hp : top.locate names = some p) (hn : top.get? p = some n)
    (hi : cmpFindSubkey n name = some i) (hchild : n.subkeys[i]? = some child) :
    cmpResolveRecordKey now depth top (cmpBuildPath (names ++ [name])) false =
      some (top, p ++ [i]) ∧ top.get? (p ++ [i]) = some child := by
  have hall : ∀ m ∈ names ++ [name], ValidName m := by
    intro m hm
    rcases mem_append.mp hm with hm | hm
    · exact hnames m hm
    · rw [mem_singleton.mp hm]; exact hname
  rw [cmpResolveRecordKey_false hall, Key.locate_append, Key.get?_append, hp, hn]
  simp [Key.locate, Key.get?, hn, hi, hchild]

theorem cmpApplyRecord_deleteKey (hop : record.op = cmpOpDeleteKey)
    (hpath : record.path = cmpBuildPath (names ++ [name]))
    (h : top.updatePath names (deleteChild record.lastWriteTime name) = some top')
    (now : UInt64) (depth : Nat) : cmpApplyRecord now depth top record = (top', true) := by
  obtain ⟨p, n, n', -, hp, hget, hfn, rfl⟩ := exists_of_updatePath hnames h now depth
  simp only [deleteChild, bind_eq_some_iff] at hfn
  obtain ⟨i, hi, child, hchild, hfn⟩ := hfn
  split at hfn
  · rename_i hleaf
    cases hfn
    obtain ⟨hres, hgetc⟩ := cmpResolveRecordKey_child hname hnames now depth hp hget hi hchild
    simp only [cmpApplyRecord, hop, hpath, hres, hgetc, getLast?_concat,
      dropLast_concat, hleaf]
    exact congrArg (·, true) (Key.modifyAt_const_get? hget _).symm
  · cases hfn

theorem cmpApplyRecord_renameKey {newName : WStr} (hop : record.op = cmpOpRenameKey)
    (hpath : record.path = cmpBuildPath (names ++ [name]))
    (htail : cmpReadTailName record.tail = some newName) (hne : newName ≠ [])
    (h : top.updatePath names (renameChild record.lastWriteTime name newName) = some top')
    (now : UInt64) (depth : Nat) : cmpApplyRecord now depth top record = (top', true) := by
  obtain ⟨p, n, n', -, hp, hget, hfn, rfl⟩ := exists_of_updatePath hnames h now depth
  simp only [renameChild, map_eq_some_iff] at hfn
  obtain ⟨i, hi, rfl⟩ := hfn
  obtain ⟨l1, child, l2, hsub, rfl, -, -⟩ := cmpFindSubkey_eq_some_iff.mp hi
  have hchild : n.subkeys[l1.length]? = some child := by simp [hsub]
  obtain ⟨hres, hgetc⟩ := cmpResolveRecordKey_child hname hnames now depth hp hget hi hchild
  simp only [cmpApplyRecord, hop, hpath, hres, hgetc, htail, dropLast_concat,
    getLast?_concat, if_neg hne]
  exact congrArg (·, true) (Key.modifyAt_const_get? hget _).symm

end

theorem link_eq_append (siblings : List Key) (name : WStr) :
    ∃ l1 l2, siblings = l1 ++ l2 ∧ l1.length = sortedIndex siblings name ∧
      ∀ node : Key, node.name = name → cmpLinkSubkeySorted siblings node = l1 ++ node :: l2 := by
  induction siblings with
  | nil => exact ⟨[], [], rfl, rfl, fun node _ => rfl⟩
  | cons s siblings ih =>
    by_cases hs : Before name s.name
    · refine ⟨[], s :: siblings, rfl, by simp [sortedIndex, hs, findIdx_cons],
        fun node hn => ?_⟩
      have : KeyBefore node s := by rw [KeyBefore, hn]; exact hs
      simp [cmpLinkSubkeySorted, this]
    · obtain ⟨l1, l2, rfl, hlen, hins⟩ := ih
      refine ⟨s :: l1, l2, rfl, ?_, fun node hn => ?_⟩
      · simp [sortedIndex, hs, findIdx_cons] at hlen ⊢
        exact hlen
      · have : ¬ KeyBefore node s := by rw [KeyBefore, hn]; exact hs
        simpa [cmpLinkSubkeySorted, this] using hins node hn

theorem cmpWalkSegments_create (hne : name ≠ []) (now : UInt64) (depth : Nat)
    (node : Key) (stamp : UInt64) (link : Bool) :
    (cmpWalkSegments now true depth [name] node).map (fun r => r.1.modifyAt (fun c =>
        { c with lastWriteTime := stamp, isLink := link }) r.2) =
      createChild stamp link depth name node := by
  rw [cmpWalkSegments, if_neg hne, createChild]
  cases hfind : cmpFindSubkey node name with
  | some i =>
    obtain ⟨l1, c, l2, hsub, rfl, -, -⟩ := cmpFindSubkey_eq_some_iff.mp hfind
    simp [hsub, cmpWalkSegments, Key.modifyAt]
  | none =>
    by_cases hdepth : depth ≥ cmpHiveMaxDepth
    · simp [cmpAllocateNode, hdepth]
    · simp only [if_true, cmpAllocateNode, if_neg hdepth]
      obtain ⟨l1, l2, hsub, hlen, hins⟩ := link_eq_append node.subkeys name
      simp only [hins (newNode now name) rfl, hins (freshKey stamp link name) rfl,
        ← hlen, getElem?_append_cons, cmpWalkSegments, map_some, set_append_cons,
        Key.modifyAt, modify_append_cons]
      rfl

theorem cmpApplyRecord_createKey (hname : ValidName name)
    (hnames : ∀ n ∈ names, ValidName n) (hop : record.op = cmpOpCreateKey)
    (hpath : record.path = cmpBuildPath (names ++ [name])) {link : Bool}
    (hflags : record.keyFlags = if link then 1 else 0) {depth : Nat}
    (h : top.updatePath names
      (createChild record.lastWriteTime link (depth + names.length) name) = some top')
    (now : UInt64) : cmpApplyRecord now depth top record = (top', true) := by
  obtain ⟨p, n, n', -, hp, hget, hfn, rfl⟩ := exists_of_updatePath hnames h now depth
  have hlen : p.length = names.length := Key.locate_length hp
  rw [← cmpWalkSegments_create hname.ne_nil now, map_eq_some_iff] at hfn
  obtain ⟨⟨n1, q⟩, hwalk, rfl⟩ := hfn
  have hres : cmpResolveRecordKey now depth top (cmpBuildPath (names ++ [name])) true =
      some (top.modifyAt (fun _ => n1) p, p ++ q) := by
    rw [cmpResolveRecordKey_concat hname hnames, cmpWalkSegments_false fun n hn =>
      (hnames n hn).ne_nil, hp]
    simp [hget, hlen, hwalk]
  have hlink : decide (record.keyFlags &&& 1 ≠ 0) = link ∧ record.keyFlags &&& ~~~1 = 0 := by
    rw [hflags]; cases link <;> decide
  simp only [cmpApplyRecord, hop, hpath, hres, if_true, hlink.1, hlink.2, Key.modifyAt_append,
    decide_true]
  rw [Key.modifyAt_modifyAt]

end

end Proskrnl.Cm
