import Proskrnl.Cm.Steps

/-!
# The registry at boot

`CmInitialize` in `kernel/cm/registry.c`: the hive file is replayed, the skeleton keys are made, the
`Hardware` key is marked volatile, furniture is seeded, and the file is rewritten from a snapshot.
The time zones, the licence values and the other seeded values are a parameter, a list of paths with
the values seeded there; so are the values the firmware gives the `qemu` key, if there is any.
-/

namespace Proskrnl.Cm

/-- `CmpWalkPath` with `create` and its caller's panic: the tree and where the key is. -/
def cmpEnsureSkeletonKey (now : UInt64) (root : Key) (path : WStr) : Option (Key × Pos) :=
  cmpWalkPathCounted now 1 root path true

def cmpSeedValue (node : Key) (v : Value) : Key :=
  if (cmpFindValue node v.name).isSome then node else cmpSetValue node v.name v.type v.data

/-- What survived the last boot; a file that cannot be used starts an empty tree. -/
def cmpLoadHive (now : UInt64) (file : Option (List UInt8)) (root : Key) : Key :=
  match file with
  | none => root
  | some bytes =>
    if bytes.length < 16 ∨ bytes.length > cmpHiveMaxBytes then root
    else
      let r := cmpReplayImage now 1 root bytes true
      if ntSuccess r.1 then r.2 else cmpFreeSubtreeContents r.2

def machinePath : WStr := [0x4D, 0x61, 0x63, 0x68, 0x69, 0x6E, 0x65]

def userPath : WStr := [0x55, 0x73, 0x65, 0x72]

/-- "Machine\System\CurrentControlSet\Control\Session Manager". -/
def sessionManagerPath : WStr :=
  machinePath ++ [0x5C, 0x53, 0x79, 0x73, 0x74, 0x65, 0x6D] ++
    [0x5C, 0x43, 0x75, 0x72, 0x72, 0x65, 0x6E, 0x74, 0x43, 0x6F, 0x6E, 0x74, 0x72, 0x6F, 0x6C,
     0x53, 0x65, 0x74] ++
    [0x5C, 0x43, 0x6F, 0x6E, 0x74, 0x72, 0x6F, 0x6C] ++
    [0x5C, 0x53, 0x65, 0x73, 0x73, 0x69, 0x6F, 0x6E, 0x20, 0x4D, 0x61, 0x6E, 0x61, 0x67, 0x65, 0x72]

def hardwarePath : WStr :=
  machinePath ++ [0x5C, 0x48, 0x61, 0x72, 0x64, 0x77, 0x61, 0x72, 0x65]

def qemuName : WStr := [0x71, 0x65, 0x6D, 0x75]

/-- A key marked volatile where it stands; what is below it keeps its own mark. -/
def markVolatile (node : Key) : Key := { node with isVolatile := true }

def cmpSeedQemuBootFlags (now : UInt64) (qemu : Option (List Value)) (root : Key) : Option Key :=
  (cmpEnsureSkeletonKey now root hardwarePath).bind fun (root, p) =>
    let root := root.modifyAt markVolatile p
    match qemu with
    | none => some root
    | some values =>
      (cmpEnsureSkeletonKey now root (hardwarePath ++ backslash :: qemuName)).map fun (root, p) =>
        root.modifyAt (fun node => values.foldl cmpSeedValue (markVolatile node)) p

def seedFurniture (now : UInt64) : List (WStr × List Value) → Key → Option Key
  | [], root => some root
  | (path, values) :: rest, root =>
    (cmpEnsureSkeletonKey now root path).bind fun (root, p) =>
      seedFurniture now rest (root.modifyAt (fun node => values.foldl cmpSeedValue node) p)

/-- `none` is its panic. -/
def cmInitialize (env : Env) (qemu : Option (List Value)) (furniture : List (WStr × List Value))
    (file : Option (List UInt8)) : Option CmState :=
  let root := cmpLoadHive env.now file { newNode env.now registryName with bodyCount := 1 }
  let skeleton := [(machinePath, []), (userPath, []), (sessionManagerPath, [])]
  (seedFurniture env.now skeleton root).bind fun root =>
    (cmpSeedQemuBootFlags env.now qemu root).bind fun root =>
      (seedFurniture env.now furniture root).map fun root =>
        cmpRewriteHive env { root, log := file.getD [], logBytes := 0, lost := 0 }

mutual

def Key.same : Key → Key → Bool
  | ⟨n, v, t, b, vol, l, subkeys⟩, ⟨n', v', t', b', vol', l', subkeys'⟩ =>
    decide (n = n') && decide (v = v') && decide (t = t') && decide (b = b') &&
      decide (vol = vol') && decide (l = l') && sameSubkeys subkeys subkeys'

def sameSubkeys : List Key → List Key → Bool
  | [], [] => true
  | k :: ks, k' :: ks' => k.same k' && sameSubkeys ks ks'
  | _, _ => false

end

theorem Key.eq_of_same {k : Key} : ∀ {k' : Key}, k.same k' = true → k = k' := by
  induction k using Key.induct with
  | h k ih =>
    intro k' h
    have hlist : ∀ ks' ks, (∀ c ∈ ks, ∀ {c' : Key}, c.same c' = true → c = c') →
        sameSubkeys ks ks' = true → ks = ks' := by
      intro ks'
      induction ks' with
      | nil => intro ks _ hs; cases ks <;> simp [sameSubkeys] at hs ⊢
      | cons c' ks' ihl =>
        intro ks hks hs
        cases ks with
        | nil => simp [sameSubkeys] at hs
        | cons c ks =>
          simp only [sameSubkeys, Bool.and_eq_true] at hs
          rw [hks c List.mem_cons_self hs.1, ihl ks (fun d hd => hks d (.tail _ hd)) hs.2]
    cases k with
    | mk n v t b vol l subkeys =>
      cases k' with
      | mk n' v' t' b' vol' l' subkeys' =>
        simp only [Key.same, Bool.and_eq_true, decide_eq_true_eq] at h
        obtain ⟨⟨⟨⟨⟨⟨rfl, rfl⟩, rfl⟩, rfl⟩, rfl⟩, rfl⟩, hs⟩ := h
        rw [hlist subkeys' subkeys ih hs]

end Proskrnl.Cm
