import Proskrnl.Cm.Node

/-!
# Key bodies

`kernel/cm/registry.c`, the services over nodes: a key body is one open of one key, bound to the
node's address, and a handle names the body. `none` as the outcome of a call is what the kernel does
not survive: a read through the address of a freed node, a failed assertion, an allocation of no
bytes.

The log that the services keep is left to the key tree; what a call gets from outside is given by the
same `Env`.
-/

namespace Proskrnl.Cm

/-- The registry as it lies in the pool: the linked nodes, the deleted ones, the key bodies with the
address each is bound to (`none` once the body is freed), the next free address, and the images that
`NtSaveKey` has written. -/
structure Registry where
  root : Node
  limbo : List Node
  bodies : List (Option Nat)
  next : Nat
  saved : List (List UInt8)

/-- A node as a pointer finds it: linked at a position, or unlinked. -/
inductive NodeRef
  | linked (p : Pos) (node : Node)
  | unlinked (i : Nat) (node : Node)

def NodeRef.node : NodeRef → Node
  | linked _ node => node
  | unlinked _ node => node

def NodeRef.parent : NodeRef → Option (Pos × Nat)
  | linked p _ => p.getLast?.map fun i => (p.dropLast, i)
  | unlinked _ _ => none

/-- `CmpKeyDepth`. -/
def NodeRef.depth : NodeRef → Nat
  | linked p _ => p.length + 1
  | unlinked _ _ => 1

/-- A name in object attributes, from a handle or below `\Registry`. -/
inductive NodePath
  | absolute (rest : WStr)
  | relative (body : Nat) (path : WStr)

namespace Registry

/-- What the address `a` points to; `none` is freed memory. -/
def deref (r : Registry) (a : Nat) : Option NodeRef :=
  match r.root.find? a with
  | some p => (r.root.get? p).map (.linked p)
  | none =>
    (r.limbo.findIdx? fun n => decide (n.addr = a)).bind fun i =>
      (r.limbo[i]?).map (.unlinked i)

def modify (r : Registry) (p : Pos) (f : Node → Node) : Registry :=
  { r with root := r.root.modifyAt f p }

def update (r : Registry) (ref : NodeRef) (f : Node → Node) : Registry :=
  match ref with
  | .linked p _ => r.modify p f
  | .unlinked i _ => { r with limbo := r.limbo.modify i f }

def body (r : Registry) (b : Nat) : Option (Except NtStatus NodeRef) :=
  match r.bodies[b]? with
  | some (some a) => (r.deref a).map .ok
  | _ => some (.error statusInvalidHandle)

/-- The name as `CmpResolvePath` takes it. -/
def keyPath (r : Registry) : NodePath → Option (Except NtStatus KeyPath)
  | .absolute rest => some (.ok (.absolute rest))
  | .relative b path =>
    (r.body b).map fun
      | .error status => .error status
      | .ok (.unlinked _ _) => .ok (.relative .deleted path)
      | .ok (.linked p node) => .ok (.relative (if node.deleted then .deleted else .key p) path)

def cmpResolvePath (env : Env) (r : Registry) (path : NodePath) (forCreate openLink : Bool) :
    Option (Except NtStatus Resolved) :=
  (r.keyPath path).map fun
    | .error status => .error status
    | .ok path => Cm.cmpResolvePath env r.root.key path forCreate openLink

def cmpReferenceKey (env : Env) (r : Registry) (b : Nat) (allowDeleted : Bool) :
    Option (Except NtStatus NodeRef) :=
  if ¬ ntSuccess env.reference then some (.error env.reference)
  else
    (r.body b).map fun
      | .error status => .error status
      | .ok ref => if ref.node.deleted && !allowDeleted then .error statusKeyDeleted else .ok ref

def bindBody (node : Node) : Node := { node with bodyCount := node.bodyCount + 1 }

/-- `CmpCreateKeyHandle` on the node at `p`: where the body or its handle cannot be made, the body
goes again. -/
def cmpCreateKeyHandle (env : Env) (p : Pos) (r : Registry) : NtStatus × Registry :=
  match r.root.get? p with
  | none => (statusObjectNameNotFound, r)
  | some node =>
    if ¬ ntSuccess env.handle then (env.handle, r)
    else
      (statusSuccess, { r.modify p bindBody with bodies := r.bodies ++ [some node.addr] })

/-- The last reference to a body goes. A deleted node goes with its last body. -/
def cmpDeleteKeyBody (b : Nat) (r : Registry) : Option Registry :=
  match r.bodies[b]? with
  | some (some a) =>
    match r.deref a with
    | none => none
    | some ref =>
      if ref.node.bodyCount = 0 then none
      else
        let r := r.update ref fun n => { n with bodyCount := n.bodyCount - 1 }
        let r := { r with bodies := r.bodies.set b none }
        match ref with
        | .linked _ node => if node.deleted && node.bodyCount == 1 then none else some r
        | .unlinked i node =>
          if node.deleted && node.bodyCount == 1 then
            if node.subkeyCount ≠ 0 then none else some { r with limbo := r.limbo.eraseIdx i }
          else some r
  | _ => some r

/-- A parent with a new child, in the order of `NtCreateKey` and `NtLoadKeyEx`. -/
def addChild (now : UInt64) (child parent : Node) : Node :=
  { parent.linkChild child with lastWriteTime := now }

def ntCreateKey (env : Env) (path : NodePath) (options : CreateOptions) (r : Registry) :
    Option (NtStatus × Registry) :=
  if ¬ ntSuccess env.probe then some (env.probe, r)
  else
    match r.cmpResolvePath env path true (options.createLink || options.openLink) with
    | none => none
    | some (.error status) => some (status, r)
    | some (.ok { found := some p, .. }) =>
      if options.createLink then some (statusObjectNameCollision, r)
      else if ¬ options.access then some (statusAccessDenied, r)
      else some (r.cmpCreateKeyHandle env p)
    | some (.ok { parent := none, found := none, .. }) => some (statusObjectNameNotFound, r)
    | some (.ok { parent := some p, leaf, found := none }) =>
      match r.root.get? p with
      | none => some (statusObjectNameNotFound, r)
      | some parent =>
        if parent.isVolatile && !options.isVolatile then some (statusChildMustBeVolatile, r)
        else if p.length + 1 ≥ cmpHiveMaxDepth then some (statusInvalidParameter, r)
        else if ¬ env.nodePool then some (statusInsufficientResources, r)
        else
          let child := { Node.newNode env.now r.next leaf with
            isVolatile := parent.isVolatile || options.isVolatile, isLink := options.createLink }
          let q := p ++ [Node.sortedIndex parent.subkeys leaf]
          let r := { r.modify p (addChild env.now child) with next := r.next + 1 }
          some (r.cmpCreateKeyHandle env q)

def ntOpenKeyEx (env : Env) (path : NodePath) (openLink access : Bool) (r : Registry) :
    Option (NtStatus × Registry) :=
  if ¬ ntSuccess env.probe then some (env.probe, r)
  else
    match r.cmpResolvePath env path false openLink with
    | none => none
    | some (.error status) => some (status, r)
    | some (.ok { found := none, .. }) => some (statusObjectNameNotFound, r)
    | some (.ok { found := some p, .. }) =>
      if ¬ access then some (statusAccessDenied, r)
      else some (r.cmpCreateKeyHandle env p)

/-- The node that `NtDeleteKey` leaves to its bodies. -/
def deletedNode (node : Node) : Node := { node.cmpFreeValues with deleted := true }

def removeChild (now : UInt64) (i : Nat) (parent : Node) : Node :=
  { parent.unlinkChild i with lastWriteTime := now }

def ntDeleteKey (env : Env) (b : Nat) (r : Registry) : Option (NtStatus × Registry) :=
  match r.cmpReferenceKey env b true with
  | none => none
  | some (.error status) => some (status, r)
  | some (.ok ref) =>
    if ref.node.deleted then some (statusSuccess, r)
    else
      match ref.parent with
      | none => some (statusAccessDenied, r)
      | some ([], _) => some (statusAccessDenied, r)
      | some (p, i) =>
        if ref.node.subkeyCount ≠ 0 then some (statusAccessDenied, r)
        else
          let r := r.modify p (removeChild env.now i)
          some (statusSuccess, { r with limbo := r.limbo ++ [deletedNode ref.node] })

/-- `NtRenameKey` to a name of `2 * newName.length` bytes, or of one byte more. -/
def ntRenameKey (env : Env) (b : Nat) (newName : WStr) (odd : Bool) (r : Registry) :
    Option (NtStatus × Registry) :=
  if ¬ ntSuccess env.probe then some (env.probe, r)
  else if newName = [] ∧ odd = false then some (statusInvalidParameter, r)
  else
    match r.cmpReferenceKey env b false with
    | none => none
    | some (.error status) => some (status, r)
    | some (.ok ref) =>
      if newName.length > 256 then some (statusInvalidParameter, r)
      else if backslash ∈ newName then some (statusInvalidParameter, r)
      else
        match ref.parent with
        | none => some (statusCannotDelete, r)
        | some (p, i) =>
          match r.root.get? p with
          | none => none
          | some parent =>
            if (parent.cmpFindSubkey newName).isSome then some (statusCannotDelete, r)
            else if newName = [] then none
            else if ¬ env.nodePool then some (statusInsufficientResources, r)
            else
              some (statusSuccess,
                r.modify p fun parent => parent.cmpRenameNode env.now i newName)

/-- `name` is the value name in whole units. -/
def ntSetValueKey (env : Env) (b : Nat) (name : WStr) (type : UInt32) (data : List UInt8)
    (r : Registry) : Option (NtStatus × Registry) :=
  if ¬ ntSuccess env.probe then some (env.probe, r)
  else if name.length > 16383 then some (statusInvalidParameter, r)
  else
    match r.cmpReferenceKey env b false with
    | none => none
    | some (.error status) => some (status, r)
    | some (.ok ref) =>
      if ref.node.isLink && (type != regLink || !rtlEqualUnicodeString name symbolicLinkValue) then
        some (statusAccessDenied, r)
      else if ((ref.node.cmpFindValue name).bind (ref.node.values[·]?)).any fun v =>
          v.type == type && v.data == data then some (statusSuccess, r)
      else if ¬ env.nodePool then some (statusInsufficientResources, r)
      else
        some (statusSuccess, r.update ref fun n =>
          { n.cmpSetValue name type data with lastWriteTime := env.now })

/-- `name` is the value name in whole units. -/
def ntDeleteValueKey (env : Env) (b : Nat) (name : WStr) (r : Registry) :
    Option (NtStatus × Registry) :=
  if ¬ ntSuccess env.probe then some (env.probe, r)
  else if name.length > 16383 then some (statusObjectNameNotFound, r)
  else
    match r.cmpReferenceKey env b false with
    | none => none
    | some (.error status) => some (status, r)
    | some (.ok ref) =>
      if (ref.node.cmpRemoveValue name).isNone then some (statusObjectNameNotFound, r)
      else
        some (statusSuccess, r.update ref fun n =>
          { (n.cmpRemoveValue name).getD n with lastWriteTime := env.now })

/-- `NtSaveKey`, the privilege held where `env.privilege` says so. -/
def ntSaveKey (env : Env) (b : Nat) (r : Registry) : Option (NtStatus × Registry) :=
  match r.cmpReferenceKey env b false with
  | none => none
  | some (.error status) => some (status, r)
  | some (.ok ref) =>
    if ¬ env.privilege then some (statusPrivilegeNotHeld, r)
    else
      match cmpSerializeSubtree env.recordPool ref.node.key with
      | .error status => some (status, r)
      | .ok image =>
        if ntSuccess env.write then some (env.write, { r with saved := r.saved ++ [image] })
        else some (env.write, r)

/-- `NtLoadKeyEx`. -/
def ntLoadKey (env : Env) (path : NodePath) (file : Except NtStatus (List UInt8)) (r : Registry) :
    Option (NtStatus × Registry) :=
  if ¬ ntSuccess env.probe then some (env.probe, r)
  else if ¬ env.privilege then some (statusPrivilegeNotHeld, r)
  else
    match readImage file with
    | .error status => some (status, r)
    | .ok image =>
      match r.cmpResolvePath env path true false with
      | none => none
      | some (.error status) => some (status, r)
      | some (.ok { found := some _, .. }) => some (statusObjectNameCollision, r)
      | some (.ok { parent := none, found := none, .. }) => some (statusObjectNameNotFound, r)
      | some (.ok { parent := some p, leaf, found := none }) =>
        if p.length + 1 ≥ cmpHiveMaxDepth then some (statusInvalidParameter, r)
        else if ¬ env.nodePool then some (statusInsufficientResources, r)
        else
          let mount := { Node.newNode env.now r.next leaf with isVolatile := true }
          let parsed := mount.cmpParseSubtreeInto env.now env.replayPool (p.length + 2)
            (r.next + 1) image
          some (parsed.1, { r.modify p (addChild env.now parsed.2.1) with next := parsed.2.2 })

def ntUnloadKey (env : Env) (path : NodePath) (r : Registry) : Option (NtStatus × Registry) :=
  if ¬ ntSuccess env.probe then some (env.probe, r)
  else if ¬ env.privilege then some (statusPrivilegeNotHeld, r)
  else
    match r.cmpResolvePath env path false false with
    | none => none
    | some (.error status) => some (status, r)
    | some (.ok { found := none, .. }) => some (statusObjectNameNotFound, r)
    | some (.ok { found := some p, .. }) =>
      match r.root.get? p with
      | none => some (statusObjectNameNotFound, r)
      | some node =>
        if node.bodyCount ≠ 0 then some (statusCannotDelete, r)
        else
          match (NodeRef.linked p node).parent with
          | none => some (statusAccessDenied, r)
          | some ([], _) => some (statusAccessDenied, r)
          | some (q, i) =>
            let r := r.modify q (removeChild env.now i)
            some (statusSuccess, { r with limbo := r.limbo ++ node.cmpDeleteNodeRecursive })

def graft (scratch node : Node) : Node :=
  { node with
    values := scratch.values, valueCount := scratch.valueCount
    lastWriteTime := scratch.lastWriteTime
    subkeys := scratch.subkeys, subkeyCount := scratch.subkeyCount }

/-- The image is parsed into a scratch node that borrows the target's parent. -/
def ntRestoreKey (env : Env) (b : Nat) (file : Except NtStatus (List UInt8)) (flags : UInt32)
    (r : Registry) : Option (NtStatus × Registry) :=
  match r.cmpReferenceKey env b false with
  | none => none
  | some (.error status) => some (status, r)
  | some (.ok ref) =>
    if ¬ env.privilege then some (statusPrivilegeNotHeld, r)
    else if flags ≠ 0 then some (statusInvalidParameter, r)
    else if ref.node.cmpSubtreeHasOpenBodies then some (statusCannotDelete, r)
    else
      match readImage file with
      | .error status => some (status, r)
      | .ok image =>
        if ¬ env.nodePool then some (statusInsufficientResources, r)
        else
          let parsed := (Node.newNode env.now r.next []).cmpParseSubtreeInto env.now env.replayPool
            ref.depth (r.next + 1) image
          if ntSuccess parsed.1 then
            let r := r.update ref (graft parsed.2.1)
            some (parsed.1, { r with
              next := parsed.2.2, limbo := r.limbo ++ Node.deleteSubkeys ref.node.subkeys })
          else some (parsed.1, { r with next := parsed.2.2 })

inductive Call
  | createKey (path : NodePath) (options : CreateOptions)
  | openKey (path : NodePath) (openLink access : Bool)
  | closeKey (body : Nat)
  | deleteKey (body : Nat)
  | renameKey (body : Nat) (newName : WStr) (odd : Bool)
  | setValueKey (body : Nat) (name : WStr) (type : UInt32) (data : List UInt8)
  | deleteValueKey (body : Nat) (name : WStr)
  | saveKey (body : Nat)
  | loadKey (path : NodePath) (file : Except NtStatus (List UInt8))
  | unloadKey (path : NodePath)
  | restoreKey (body : Nat) (file : Except NtStatus (List UInt8)) (flags : UInt32)

def Call.image : Call → Option (List UInt8)
  | .loadKey _ (.ok image) => some image
  | .restoreKey _ (.ok image) _ => some image
  | _ => none

def step (env : Env) (call : Call) (r : Registry) : Option (NtStatus × Registry) :=
  match call with
  | .createKey path options => r.ntCreateKey env path options
  | .openKey path openLink access => r.ntOpenKeyEx env path openLink access
  | .closeKey b => (r.cmpDeleteKeyBody b).map (statusSuccess, ·)
  | .deleteKey b => r.ntDeleteKey env b
  | .renameKey b newName odd => r.ntRenameKey env b newName odd
  | .setValueKey b name type data => r.ntSetValueKey env b name type data
  | .deleteValueKey b name => r.ntDeleteValueKey env b name
  | .saveKey b => r.ntSaveKey env b
  | .loadKey path file => r.ntLoadKey env path file
  | .unloadKey path => r.ntUnloadKey env path
  | .restoreKey b file flags => r.ntRestoreKey env b file flags

/-- Any sequence of calls that load and restore only what `NtSaveKey` wrote. -/
inductive Run (r0 : Registry) : Registry → Prop
  | refl : Run r0 r0
  | call {r r' : Registry} {env : Env} {call : Call} {status : NtStatus} : Run r0 r →
    (∀ image, call.image = some image → image ∈ r.saved) →
    r.step env call = some (status, r') → Run r0 r'

end Registry

end Proskrnl.Cm
