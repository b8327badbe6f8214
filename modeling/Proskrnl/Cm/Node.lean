import Proskrnl.Cm.Services

/-!
# Key nodes in the pool

`kernel/cm/registry.c` and the replay of `kernel/cm/hive.c` once more, with what the key tree leaves
out: a node has an address, the two counters that stand beside its lists and the mark of a deleted
key. Nodes that were unlinked while key bodies were bound to them lie beside the tree until the last
of these bodies is closed.

Names are looked up in the tree of keys that the nodes spell (`Node.key`), in which a node has the
same position.
-/

namespace Proskrnl.Cm
open Bytes ListUpdate

/-- `CMP_KEY_NODE` at an address, with its two lists. -/
structure Node where
  addr : Nat
  name : WStr
  values : List Value
  valueCount : Nat
  lastWriteTime : UInt64
  bodyCount : Nat
  deleted : Bool
  isVolatile : Bool
  isLink : Bool
  subkeyCount : Nat
  subkeys : List Node

namespace Node

mutual

def key : Node → Key
  | ⟨_, name, values, _, lastWriteTime, bodyCount, _, isVolatile, isLink, _, subkeys⟩ =>
    ⟨name, values, lastWriteTime, bodyCount, isVolatile, isLink, keys subkeys⟩

def keys : List Node → List Key
  | [] => []
  | child :: rest => child.key :: keys rest

end

def get? : Node → Pos → Option Node
  | n, [] => some n
  | n, i :: p => (n.subkeys[i]?).bind fun c => c.get? p

def modifyAt (f : Node → Node) : Pos → Node → Node
  | [], n => f n
  | i :: p, n => { n with subkeys := n.subkeys.modify i (modifyAt f p) }

mutual

def find? (a : Nat) : Node → Option Pos
  | ⟨addr, _, _, _, _, _, _, _, _, _, subkeys⟩ =>
    if addr = a then some [] else findIn a 0 subkeys

/-- The search through a subkey list, from index `i` on. -/
def findIn (a : Nat) : Nat → List Node → Option Pos
  | _, [] => none
  | i, child :: rest =>
    match child.find? a with
    | some p => some (i :: p)
    | none => findIn a (i + 1) rest

end

mutual

/-- The addresses of the nodes of a tree, each with its body count. -/
def heads : Node → List (Nat × Nat)
  | ⟨addr, _, _, _, _, bodyCount, _, _, _, _, subkeys⟩ => (addr, bodyCount) :: headsOf subkeys

def headsOf : List Node → List (Nat × Nat)
  | [] => []
  | child :: rest => child.heads ++ headsOf rest

end

def NodeBefore (a b : Node) : Prop := Before a.name b.name

instance : DecidableRel NodeBefore := fun a b => inferInstanceAs (Decidable (Before a.name b.name))

def cmpLinkSubkeySorted (siblings : List Node) (node : Node) : List Node :=
  siblings.orderedInsert NodeBefore node

/-- The index at which `CmpLinkSubkeySorted` links a node of this name. -/
def sortedIndex (siblings : List Node) (name : WStr) : Nat :=
  siblings.findIdx fun s => decide (Before name s.name)

/-- The node `CmpAllocateNode` fills in. -/
def newNode (now : UInt64) (addr : Nat) (name : WStr) : Node :=
  { addr, name, values := [], valueCount := 0, lastWriteTime := now, bodyCount := 0,
    deleted := false, isVolatile := false, isLink := false, subkeyCount := 0, subkeys := [] }

def linkChild (parent child : Node) : Node :=
  { parent with
    subkeys := cmpLinkSubkeySorted parent.subkeys child, subkeyCount := parent.subkeyCount + 1 }

/-- `CmpAllocateNode` under `parent` at depth `depth`, the pool permitting. -/
def cmpAllocateNode (now : UInt64) (addr depth : Nat) (parent : Node) (name : WStr) : Option Node :=
  if depth ≥ cmpHiveMaxDepth then none else some (linkChild parent (newNode now addr name))

def cmpFindSubkey (node : Node) (name : WStr) : Option Nat :=
  node.subkeys.findIdx? fun c => rtlEqualUnicodeString c.name name

def cmpFindValue (node : Node) (name : WStr) : Option Nat :=
  node.values.findIdx? fun v => rtlEqualUnicodeString v.name name

/-- `CmpSetValue`, the pool permitting: a binding in place keeps its name and its case. -/
def cmpSetValue (node : Node) (name : WStr) (type : UInt32) (data : List UInt8) : Node :=
  match node.cmpFindValue name with
  | some i => { node with values := node.values.modify i fun v => { v with type, data } }
  | none =>
    { node with
      values := node.values.orderedInsert ValueBefore { name, type, data }
      valueCount := node.valueCount + 1 }

def cmpFreeValues (node : Node) : Node := { node with values := [], valueCount := 0 }

/-- The node without the value, `none` when it has none of that name. -/
def cmpRemoveValue (node : Node) (name : WStr) : Option Node :=
  match node.cmpFindValue name with
  | some i =>
    some { node with values := node.values.eraseIdx i, valueCount := node.valueCount - 1 }
  | none => none

/-- Child `i` unlinked and no longer counted. -/
def unlinkChild (parent : Node) (i : Nat) : Node :=
  { parent with subkeys := parent.subkeys.eraseIdx i, subkeyCount := parent.subkeyCount - 1 }

/-- `CmpRenameNode` on child `i` of `parent`, the pool permitting, and the stamp its callers set
after it. -/
def cmpRenameNode (stamp : UInt64) (parent : Node) (i : Nat) (newName : WStr) : Node :=
  match parent.subkeys[i]? with
  | some child =>
    { parent with
      subkeys := cmpLinkSubkeySorted (parent.subkeys.eraseIdx i)
        { child with name := newName, lastWriteTime := stamp } }
  | none => parent

mutual

/-- `CmpDeleteNodeRecursive` on an unlinked node: the nodes that live bodies keep in the pool. -/
def cmpDeleteNodeRecursive : Node → List Node
  | ⟨addr, name, values, valueCount, lastWriteTime, bodyCount, deleted, isVolatile, isLink,
      subkeyCount, subkeys⟩ =>
    let node := cmpFreeValues
      ⟨addr, name, values, valueCount, lastWriteTime, bodyCount, deleted, isVolatile, isLink,
        subkeyCount - subkeys.length, []⟩
    deleteSubkeys subkeys ++ if bodyCount = 0 then [] else [{ node with deleted := true }]

def deleteSubkeys : List Node → List Node
  | [] => []
  | child :: rest => cmpDeleteNodeRecursive child ++ deleteSubkeys rest

end

mutual

def cmpSubtreeHasOpenBodies : Node → Bool
  | ⟨_, _, _, _, _, _, _, _, _, _, subkeys⟩ => anyOpen subkeys

def anyOpen : List Node → Bool
  | [] => false
  | child :: rest => child.bodyCount != 0 || cmpSubtreeHasOpenBodies child || anyOpen rest

end

/-- `CmpResolveRecordKey` under `top` at depth `depth`: only the last component is ever created, at
the address `addr`, if there is pool for it. The result says which address is free then. -/
def cmpResolveRecordKey (now : UInt64) (pool : RecordPool) (depth addr : Nat) (top : Node)
    (path : WStr) (create : Bool) : Option (Node × Pos × Nat) :=
  if path = [] then some (top, [], addr)
  else
    let leaf := pathLeaf path
    let split := path.length - leaf.length
    let parent :=
      if split > 0 then
        (cmpWalkPathCounted now depth top.key (path.take (split - 1)) false).map Prod.snd
      else some []
    match parent with
    | none => none
    | some p =>
      if leaf = [] then none
      else
        match top.get? p with
        | none => none
        | some node =>
          match node.cmpFindSubkey leaf with
          | some i => some (top, p ++ [i], addr)
          | none =>
            if create && pool.isEnough then
              match cmpAllocateNode now addr (depth + p.length) node leaf with
              | some node' =>
                some (top.modifyAt (fun _ => node') p, p ++ [sortedIndex node.subkeys leaf],
                  addr + 1)
              | none => none
            else none

/-- `CmpApplyValues`, up to the value for which there is no pool. -/
def cmpApplyValues : RecordPool → Nat → List UInt8 → Node → Node × Bool
  | _, 0, _, node => (node, true)
  | pool, count + 1, cursor, node =>
    if cursor.length < 12 then (node, false)
    else
      let nameBytes := 2 * field cursor 0 2
      let type := UInt32.ofNat (field cursor 4 4)
      let dataBytes := field cursor 8 4
      let used := roundUp8 (12 + nameBytes + dataBytes)
      if used > cursor.length then (node, false)
      else
        let name := toUnits ((cursor.drop 12).take (nameBytes % 65536))
        let data := (cursor.drop (12 + nameBytes)).take dataBytes
        if pool.isEmpty && setValueAllocates node.values name data then (node, false)
        else cmpApplyValues pool.afterValue count (cursor.drop used) (cmpSetValue node name type data)

/-- The tree after the record, the address that is free then, and whether the
replay goes on. -/
def cmpApplyRecord (now : UInt64) (pool : RecordPool) (depth addr : Nat) (top : Node)
    (record : Record) : Node × Nat × Bool :=
  let stamp := record.lastWriteTime
  if record.op = cmpOpCreateKey then
    match cmpResolveRecordKey now pool depth addr top record.path true with
    | none => (top, addr, false)
    | some (top, p, addr) =>
      (top.modifyAt (fun node =>
          { node with lastWriteTime := stamp, isLink := decide (record.keyFlags &&& 1 ≠ 0) }) p,
        addr, decide (record.keyFlags &&& ~~~1 = 0))
  else
    match cmpResolveRecordKey now pool depth addr top record.path false with
    | none => (top, addr, false)
    | some (_, p, _) =>
      match top.get? p with
      | none => (top, addr, false)
      | some node =>
        if record.op = cmpOpSetValues then
          let r := cmpApplyValues pool record.valueCount record.tail
            { node with lastWriteTime := stamp }
          (top.modifyAt (fun _ => r.1) p, addr, r.2)
        else if record.op = cmpOpDeleteKey then
          match p.getLast? with
          | none => (top, addr, false)
          | some i =>
            if node.subkeyCount ≠ 0 then (top, addr, false)
            else
              (top.modifyAt (fun parent =>
                { parent.unlinkChild i with lastWriteTime := stamp }) p.dropLast, addr, true)
        else if record.op = cmpOpDeleteValue then
          match cmpReadTailName record.tail with
          | none => (top, addr, false)
          | some name =>
            let node := { node with lastWriteTime := stamp }
            (top.modifyAt (fun _ => (node.cmpRemoveValue name).getD node) p, addr, true)
        else if record.op = cmpOpRenameKey then
          match p.getLast?, cmpReadTailName record.tail with
          | some i, some newName =>
            if newName = [] then (top, addr, false)
            else if ¬ pool.isEnough then (top, addr, false)
            else
              (top.modifyAt (fun parent => cmpRenameNode stamp parent i newName) p.dropLast, addr,
                true)
          | _, _ => (top, addr, false)
        else (top, addr, false)

/-- What the loop of `CmpReplayImage` leaves. -/
structure Replayed where
  top : Node
  addr : Nat
  rest : List UInt8
  applied : Nat

/-- The loop of `CmpReplayImage` over the bytes after the header. A record takes at least 24 bytes,
so the number of bytes bounds the rounds. A record is behind the reader's offset before it is
applied, also one that is refused. -/
def cmpReplayRecords (now : UInt64) (pool : Nat → RecordPool) (depth : Nat) :
    Nat → Replayed → Replayed
  | 0, r => r
  | rounds + 1, r =>
    match cmpReadRecord r.rest with
    | none => r
    | some (record, rest) =>
      match cmpApplyRecord now (pool r.applied) depth r.addr r.top record with
      | (top, addr, true) =>
        cmpReplayRecords now pool depth rounds { top, addr, rest, applied := r.applied + 1 }
      | (top, addr, false) => { top, addr, rest, applied := r.applied }

def cmpFreeSubtreeContents (node : Node) : Node :=
  cmpFreeValues
    { node with subkeys := [], subkeyCount := node.subkeyCount - node.subkeys.length }

/-- `CmpParseSubtreeInto` into `top` at depth `depth`, with the pool that each record finds. -/
def cmpParseSubtreeInto (now : UInt64) (pool : Nat → RecordPool) (depth addr : Nat) (top : Node)
    (buffer : List UInt8) : NtStatus × Node × Nat :=
  if buffer.length < 16 ∨ buffer.length > cmpHiveMaxBytes ∨ field buffer 0 4 ≠ 0x32564850 ∨
      field buffer 4 4 ≠ 2 then (statusNotRegistryFile, top, addr)
  else if depth = 0 ∨ depth > cmpHiveMaxDepth then (statusNotRegistryFile, top, addr)
  else
    let r := cmpReplayRecords now pool depth buffer.length
      { top, addr, rest := buffer.drop 16, applied := 0 }
    if r.rest = [] ∧ r.applied ≠ 0 then (statusSuccess, r.top, r.addr)
    else (statusNotRegistryFile, cmpFreeSubtreeContents r.top, r.addr)

end Node

end Proskrnl.Cm
