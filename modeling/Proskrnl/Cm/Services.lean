import Proskrnl.Cm.Snapshot

/-!
# The registry services

`kernel/cm/registry.c`, the services that change the tree, and the log they keep
(`kernel/cm/hive.c` from `CmpLogRecord` on). A handle is the position of the key it names, taken at
the time of the call, or `deleted`; what a call gets from outside Cm (the probes of its arguments,
the handle table, the pool, the boot volume) is given by an `Env`, so that each call may fail at
each of these places.
-/

namespace Proskrnl.Cm
open Bytes ListUpdate

/-- The pool that a record of an image finds: enough, or enough for the first values of a SET_VALUES
and for no key, no new name and no other value. -/
inductive RecordPool
  | enough
  | values (count : Nat)

namespace RecordPool

def isEnough : RecordPool → Bool
  | enough => true
  | values _ => false

/-- There is none for the next value. -/
def isEmpty : RecordPool → Bool
  | enough => false
  | values count => count == 0

def afterValue : RecordPool → RecordPool
  | enough => enough
  | values count => values (count - 1)

end RecordPool

structure Env where
  /-- `CmpNow`. -/
  now : UInt64 := 0
  /-- The probes of the caller's arguments. -/
  probe : NtStatus := statusSuccess
  /-- `ObReferenceObjectByHandle` on the key handle. -/
  reference : NtStatus := statusSuccess
  /-- `SeSinglePrivilegeCheck` for `SE_RESTORE_PRIVILEGE`. -/
  privilege : Bool := true
  /-- The pool for a node and its name, a value, a new name. -/
  nodePool : Bool := true
  /-- The pool for a path composed from a link. -/
  linkPool : Bool := true
  /-- `CmpCreateKeyHandle`: the key body and its handle. -/
  handle : NtStatus := statusSuccess
  /-- The pool for the path that `CmpCaptureLogPath` copies. -/
  capturePool : Bool := true
  /-- The pool for the record or the snapshot. -/
  recordPool : Bool := true
  /-- The write of a record, or of a snapshot and its rename. -/
  write : NtStatus := statusSuccess
  /-- How many bytes of a record reach the file when its write fails. -/
  torn : Nat := 0
  /-- The pool for a record of an image, after so many others. -/
  replayPool : Nat → RecordPool := fun _ => .enough

/-- The registry: the tree, the hive file, the size of it that `CmpHiveLogBytes` tracks, and how
many changes were reported lost for the file ("will NOT survive reboot"). -/
structure CmState where
  root : Key
  log : List UInt8
  logBytes : Nat
  lost : Nat

/-- A key handle: the key it names, or a key that was deleted under it. -/
inductive KeyRef
  | key (p : Pos)
  | deleted

/-- A name in object attributes: what is left of it below `\Registry`, or a path from a handle. -/
inductive KeyPath
  | absolute (rest : WStr)
  | relative (base : KeyRef) (path : WStr)

def cmpNextComponent (path : WStr) : Option (WStr × WStr) :=
  let path := path.dropWhile (· = backslash)
  if path = [] then none
  else some (path.takeWhile (· ≠ backslash), path.dropWhile (· ≠ backslash))

def cmpPathExhausted (path : WStr) : Bool := path.all (· = backslash)

def registryPrefix : WStr := [0x5C, 0x52, 0x65, 0x67, 0x69, 0x73, 0x74, 0x72, 0x79]

def symbolicLinkValue : WStr :=
  [0x53, 0x79, 0x6D, 0x62, 0x6F, 0x6C, 0x69, 0x63, 0x4C, 0x69, 0x6E, 0x6B, 0x56, 0x61, 0x6C, 0x75,
   0x65]

def cmpMaxLinkExpansions : Nat := 32

/-- `CmpFollowLink` after its count of expansions: the path to go on with from the root. Lengths are
`USHORT`s of bytes, so both the destination and the composed path wrap at 32768 units. -/
def cmpFollowLink (env : Env) (link : Key) (remainder : WStr) : Except NtStatus WStr :=
  match cmpFindValue link symbolicLinkValue with
  | none => .error statusObjectNameNotFound
  | some value =>
    if value.data.length < 2 then .error statusObjectNameNotFound
    else
      let units := toUnits (value.data.take (2 * (value.data.length / 2)))
      let target := units.take (units.length % 32768)
      if units.head? ≠ some backslash then .error statusObjectNameNotFound
      else if ¬ rtlEqualUnicodeString (target.take registryPrefix.length) registryPrefix ∨
          (target.length > registryPrefix.length ∧
            target[registryPrefix.length]? ≠ some backslash) then
        .error statusObjectNameNotFound
      else if ¬ env.linkPool then .error statusInsufficientResources
      else
        let composed := target.drop registryPrefix.length ++
          if remainder = [] then [] else backslash :: remainder
        .ok (composed.take (composed.length % 32768))

/-- Where one pass of `CmpResolvePath` over the components ends: at a key with a last component still
to be looked up, or at a link with the path that follows it. -/
inductive WalkEnd
  | stop (p : Pos) (leaf : WStr)
  | link (p : Pos) (remainder : WStr)

/-- The child of the key at `p` that is found by name. -/
def childAt (root : Key) (p : Pos) (name : WStr) : Option Pos :=
  (root.get? p).bind fun node => (cmpFindSubkey node name).map fun i => p ++ [i]

def linkAt (root : Key) (p : Pos) : Bool := (root.get? p).any Key.isLink

/-- The component loop of `CmpResolvePath` for an open. A component takes a unit at least, so the
length of the path bounds the rounds. -/
def openWalk (root : Key) : Nat → Pos → WStr → Except NtStatus WalkEnd
  | 0, p, _ => .ok (.stop p [])
  | rounds + 1, p, path =>
    match cmpNextComponent path with
    | none => .ok (.stop p [])
    | some (component, path) =>
      if component.length > 256 then .error statusInvalidParameter
      else
        match childAt root p component with
        | none => .error statusObjectNameNotFound
        | some q =>
          if linkAt root q && !cmpPathExhausted path then .ok (.link q path)
          else openWalk root rounds q path

/-- The component loop of `CmpResolvePath` for a create: one component behind. -/
def createWalk (root : Key) : Nat → Pos → WStr → WStr → Except NtStatus WalkEnd
  | 0, p, leaf, _ => .ok (.stop p leaf)
  | rounds + 1, p, leaf, path =>
    match cmpNextComponent path with
    | none => .ok (.stop p leaf)
    | some (component, path) =>
      if component.length > 256 then .error statusInvalidParameter
      else if leaf = [] then createWalk root rounds p component path
      else
        match childAt root p leaf with
        | none => .error statusObjectNameNotFound
        | some q =>
          if linkAt root q then .ok (.link q (component ++ path))
          else createWalk root rounds q component path

/-- What `CmpResolvePath` gives back. -/
structure Resolved where
  parent : Option Pos
  leaf : WStr
  found : Option Pos

/-- One pass of `CmpResolvePath`, from `restart` on; `follow` goes on from a link. -/
def resolvePass (root : Key) (forCreate openLink : Bool)
    (follow : Pos → WStr → Except NtStatus Resolved) (base : Pos) (path : WStr) :
    Except NtStatus Resolved :=
  let walk := if forCreate then createWalk root (path.length + 1) base [] path
    else openWalk root (path.length + 1) base path
  match walk with
  | .error status => .error status
  | .ok (.link q remainder) => follow q remainder
  | .ok (.stop p leaf) =>
    let r : Resolved :=
      if leaf = [] then { parent := none, leaf := [], found := some p }
      else { parent := some p, leaf, found := childAt root p leaf }
    match r.found with
    | some q => if linkAt root q && !openLink then follow q [] else .ok r
    | none => .ok r

/-- The passes of `CmpResolvePath`, with the number of links that may still be followed. -/
def resolveFrom (env : Env) (root : Key) (forCreate openLink : Bool) :
    Nat → Pos → WStr → Except NtStatus Resolved
  | 0, base, path =>
    resolvePass root forCreate openLink (fun _ _ => .error statusInvalidParameter) base path
  | expansions + 1, base, path =>
    resolvePass root forCreate openLink (fun q remainder =>
      match root.get? q with
      | none => .error statusObjectNameNotFound
      | some link =>
        match cmpFollowLink env link remainder with
        | .error status => .error status
        | .ok path => resolveFrom env root forCreate openLink expansions [] path) base path

def cmpResolvePath (env : Env) (root : Key) (path : KeyPath) (forCreate openLink : Bool) :
    Except NtStatus Resolved :=
  match path with
  | .absolute rest => resolveFrom env root forCreate openLink cmpMaxLinkExpansions [] rest
  | .relative .deleted _ => .error statusKeyDeleted
  | .relative (.key p) path =>
    if path.head? = some backslash then .error statusObjectPathSyntaxBad
    else if (root.get? p).isNone then .error statusInvalidHandle
    else resolveFrom env root forCreate openLink cmpMaxLinkExpansions p path

def cmpReferenceKey (env : Env) (root : Key) (handle : KeyRef) : Except NtStatus (Pos × Key) :=
  if ¬ ntSuccess env.reference then .error env.reference
  else
    match handle with
    | .deleted => .error statusKeyDeleted
    | .key p =>
      match root.get? p with
      | some node => .ok (p, node)
      | none => .error statusInvalidHandle

inductive LogTail
  | none
  | value (v : Value)
  | name (n : WStr)

def LogTail.valueCount : LogTail → Nat
  | value _ => 1
  | _ => 0

def LogTail.write : LogTail → Writer → Writer
  | none, w => w
  | value v, w => w.cmpWriteValue v
  | name n, w => w.cmpWriteTailName n

/-- `CmpLogRecord` once the hive is ready: measure, check the cap, emit, append. -/
def cmpLogRecord (env : Env) (op keyFlags : UInt8) (path : WStr) (stamp : UInt64) (tail : LogTail)
    (s : CmState) : CmState :=
  let pass (w : Writer) : Writer :=
    w.writeRecord op keyFlags path stamp tail.valueCount tail.write
  let total := (pass { buffer := none, offset := 0 }).offset
  if s.logBytes + total > cmpHiveMaxBytes then { s with lost := s.lost + 1 }
  else if ¬ env.recordPool then { s with lost := s.lost + 1 }
  else
    let bytes := (pass { buffer := some [], offset := 0 }).buffer.getD []
    if ntSuccess env.write then { s with log := s.log ++ bytes, logBytes := s.logBytes + total }
    else { s with log := s.log ++ bytes.take env.torn, lost := s.lost + 1 }

def logPath (root : Key) (p : Pos) : WStr := cmpBuildPath (root.namesTo p)

def cmpLogCreateKey (env : Env) (p : Pos) (node : Key) (s : CmState) : CmState :=
  cmpLogRecord env cmpOpCreateKey (linkFlag node.isLink) (logPath s.root p) node.lastWriteTime .none s

def cmpLogSetValue (env : Env) (p : Pos) (stamp : UInt64) (v : Value) (s : CmState) : CmState :=
  cmpLogRecord env cmpOpSetValues 0 (logPath s.root p) stamp (.value v) s

def cmpLogTouchKey (env : Env) (p : Pos) (stamp : UInt64) (s : CmState) : CmState :=
  cmpLogRecord env cmpOpSetValues 0 (logPath s.root p) stamp .none s

def cmpLogDeleteValue (env : Env) (p : Pos) (stamp : UInt64) (name : WStr) (s : CmState) : CmState :=
  cmpLogRecord env cmpOpDeleteValue 0 (logPath s.root p) stamp (.name name) s

def cmpLogDeleteKey (env : Env) (path : WStr) (stamp : UInt64) (s : CmState) : CmState :=
  cmpLogRecord env cmpOpDeleteKey 0 path stamp .none s

def cmpLogRenameKey (env : Env) (path newName : WStr) (stamp : UInt64) (s : CmState) : CmState :=
  cmpLogRecord env cmpOpRenameKey 0 path stamp (.name newName) s

def cmpCaptureLogPath (env : Env) (root : Key) (p : Pos) : Option WStr :=
  let path := logPath root p
  if path = [] ∨ 2 * path.length > 0xFFFF ∨ env.capturePool = false then none else some path

/-- A fresh snapshot takes the place of the file. -/
def cmpRewriteHive (env : Env) (s : CmState) : CmState :=
  match cmpSerializeSubtree env.recordPool s.root with
  | .error _ => { s with lost := s.lost + 1 }
  | .ok bytes =>
    if ntSuccess env.write then { s with log := bytes, logBytes := bytes.length }
    else { s with lost := s.lost + 1 }

/-- The state with the key at `p` changed in place. -/
def CmState.modify (s : CmState) (p : Pos) (f : Key → Key) : CmState :=
  { s with root := s.root.modifyAt f p }

def addBody (node : Key) : Key := { node with bodyCount := node.bodyCount + 1 }

def dropBody (node : Key) : Key := { node with bodyCount := node.bodyCount - 1 }

/-- The arguments of `NtCreateKey` besides the name. -/
structure CreateOptions where
  /-- `REG_OPTION_VOLATILE`. -/
  isVolatile : Bool := false
  /-- `REG_OPTION_CREATE_LINK`. -/
  createLink : Bool := false
  /-- `OBJ_OPENLINK`. -/
  openLink : Bool := false
  /-- The mapped access mask is not zero. -/
  access : Bool := true

/-- The key `NtCreateKey` makes. -/
def createdKey (now : UInt64) (name : WStr) (isVolatile isLink : Bool) : Key :=
  { newNode now name with isVolatile, isLink }

/-- The parent with a new child linked; its flags do not move it among its siblings, so it is linked
with them set. -/
def addChild (now : UInt64) (child parent : Key) : Key :=
  { parent with
    lastWriteTime := now, subkeys := cmpLinkSubkeySorted parent.subkeys child }

def ntCreateKey (env : Env) (path : KeyPath) (options : CreateOptions) (s : CmState) :
    NtStatus × CmState :=
  if ¬ ntSuccess env.probe then (env.probe, s)
  else
    match cmpResolvePath env s.root path true (options.createLink || options.openLink) with
    | .error status => (status, s)
    | .ok { found := some p, .. } =>
      if options.createLink then (statusObjectNameCollision, s)
      else if ¬ options.access then (statusAccessDenied, s)
      else if ¬ ntSuccess env.handle then (env.handle, s)
      else (statusSuccess, s.modify p addBody)
    | .ok { parent := none, found := none, .. } => (statusObjectNameNotFound, s)
    | .ok { parent := some p, leaf, found := none } =>
      match s.root.get? p with
      | none => (statusObjectNameNotFound, s)
      | some parent =>
        if parent.isVolatile && !options.isVolatile then (statusChildMustBeVolatile, s)
        else if p.length + 1 ≥ cmpHiveMaxDepth then (statusInvalidParameter, s)
        else if ¬ env.nodePool then (statusInsufficientResources, s)
        else
          let child :=
            createdKey env.now leaf (parent.isVolatile || options.isVolatile) options.createLink
          let s := s.modify p (addChild env.now child)
          if ¬ ntSuccess env.handle then (env.handle, s)
          else
            let q := p ++ [sortedIndex parent.subkeys leaf]
            let s := s.modify q addBody
            (statusSuccess, if child.isVolatile then s else cmpLogCreateKey env q child s)

def ntOpenKeyEx (env : Env) (path : KeyPath) (openLink access : Bool) (s : CmState) :
    NtStatus × CmState :=
  if ¬ ntSuccess env.probe then (env.probe, s)
  else
    match cmpResolvePath env s.root path false openLink with
    | .error status => (status, s)
    | .ok { found := none, .. } => (statusObjectNameNotFound, s)
    | .ok { found := some p, .. } =>
      if ¬ access then (statusAccessDenied, s)
      else if ¬ ntSuccess env.handle then (env.handle, s)
      else (statusSuccess, s.modify p addBody)

def closeKeyBody (handle : KeyRef) (s : CmState) : NtStatus × CmState :=
  match handle with
  | .deleted => (statusSuccess, s)
  | .key p => (statusSuccess, s.modify p dropBody)

def removeChild (now : UInt64) (i : Nat) (parent : Key) : Key :=
  { parent with lastWriteTime := now, subkeys := parent.subkeys.eraseIdx i }

/-- A deleted key is a success without effect, and a key within the first two levels
or with subkeys is refused. -/
def ntDeleteKey (env : Env) (handle : KeyRef) (s : CmState) : NtStatus × CmState :=
  if ¬ ntSuccess env.reference then (env.reference, s)
  else
    match handle with
    | .deleted => (statusSuccess, s)
    | .key p =>
      match s.root.get? p, p.getLast? with
      | none, _ => (statusInvalidHandle, s)
      | some _, none => (statusAccessDenied, s)
      | some node, some i =>
        if p.length = 1 then (statusAccessDenied, s)
        else if node.subkeys ≠ [] then (statusAccessDenied, s)
        else
          let captured := if node.isVolatile then none else cmpCaptureLogPath env s.root p
          let s' := s.modify p.dropLast (removeChild env.now i)
          match captured with
          | some path => (statusSuccess, cmpLogDeleteKey env path env.now s')
          | none =>
            (statusSuccess, if node.isVolatile then s' else { s' with lost := s'.lost + 1 })

def renameAt (now : UInt64) (i : Nat) (newName : WStr) (parent : Key) : Key :=
  cmpRenameNode { parent with
    subkeys := parent.subkeys.modify i fun c => { c with lastWriteTime := now } } i newName

/-- `NtRenameKey` to a name of `2 * newName.length` bytes, or of one byte more: `none` is the panic
of a zero-byte allocation, for a name of one byte. -/
def ntRenameKey (env : Env) (handle : KeyRef) (newName : WStr) (odd : Bool) (s : CmState) :
    Option (NtStatus × CmState) :=
  if ¬ ntSuccess env.probe then some (env.probe, s)
  else if newName = [] ∧ odd = false then some (statusInvalidParameter, s)
  else
    match cmpReferenceKey env s.root handle with
    | .error status => some (status, s)
    | .ok (p, node) =>
      if newName.length > 256 then some (statusInvalidParameter, s)
      else if backslash ∈ newName then some (statusInvalidParameter, s)
      else
        match p.getLast?, s.root.get? p.dropLast with
        | some i, some parent =>
          if (cmpFindSubkey parent newName).isSome then some (statusCannotDelete, s)
          else
            let captured := if node.isVolatile then none else cmpCaptureLogPath env s.root p
            let lost := if node.isVolatile || captured.isSome then s.lost else s.lost + 1
            let s := { s with lost }
            if newName = [] then none
            else if ¬ env.nodePool then some (statusInsufficientResources, s)
            else
              let s := s.modify p.dropLast (renameAt env.now i newName)
              match captured with
              | some path => some (statusSuccess, cmpLogRenameKey env path newName env.now s)
              | none => some (statusSuccess, s)
        | _, _ => some (statusCannotDelete, s)

def regLink : UInt32 := 6

def setStamped (now : UInt64) (name : WStr) (type : UInt32) (data : List UInt8) (node : Key) : Key :=
  { cmpSetValue node name type data with lastWriteTime := now }

/-- `name` is the value name in whole units. -/
def ntSetValueKey (env : Env) (handle : KeyRef) (name : WStr) (type : UInt32) (data : List UInt8)
    (s : CmState) : NtStatus × CmState :=
  if ¬ ntSuccess env.probe then (env.probe, s)
  else if name.length > 16383 then (statusInvalidParameter, s)
  else
    match cmpReferenceKey env s.root handle with
    | .error status => (status, s)
    | .ok (p, node) =>
      if node.isLink && (type != regLink || !rtlEqualUnicodeString name symbolicLinkValue) then
        (statusAccessDenied, s)
      else if (cmpFindValue node name).any fun v => v.type == type && v.data == data then
        (statusSuccess, s)
      else if ¬ env.nodePool then (statusInsufficientResources, s)
      else
        let s := s.modify p (setStamped env.now name type data)
        if node.isVolatile then (statusSuccess, s)
        else
          match cmpFindValue (cmpSetValue node name type data) name with
          | some written => (statusSuccess, cmpLogSetValue env p env.now written s)
          | none => (statusSuccess, cmpLogTouchKey env p env.now s)

def removeStamped (now : UInt64) (name : WStr) (node : Key) : Key :=
  { (cmpRemoveValue node name).getD node with lastWriteTime := now }

/-- `name` is the value name in whole units. -/
def ntDeleteValueKey (env : Env) (handle : KeyRef) (name : WStr) (s : CmState) :
    NtStatus × CmState :=
  if ¬ ntSuccess env.probe then (env.probe, s)
  else if name.length > 16383 then (statusObjectNameNotFound, s)
  else
    match cmpReferenceKey env s.root handle with
    | .error status => (status, s)
    | .ok (p, node) =>
      if (cmpRemoveValue node name).isNone then (statusObjectNameNotFound, s)
      else
        let s := s.modify p (removeStamped env.now name)
        (statusSuccess, if node.isVolatile then s else cmpLogDeleteValue env p env.now name s)

def stampKey (stamp : UInt64) (node : Key) : Key := { node with lastWriteTime := stamp }

def ntSetInformationKey (env : Env) (handle : KeyRef) (infoClass : Int) (length : Nat)
    (stamp : UInt64) (s : CmState) : NtStatus × CmState :=
  match cmpReferenceKey env s.root handle with
  | .error status => (status, s)
  | .ok (p, node) =>
    if infoClass ≠ 0 then (statusInvalidInfoClass, s)
    else if length ≠ 8 then (statusInfoLengthMismatch, s)
    else if ¬ ntSuccess env.probe then (env.probe, s)
    else
      let s := s.modify p (stampKey stamp)
      (statusSuccess, if node.isVolatile then s else cmpLogTouchKey env p stamp s)

/-- `CmpSetValue` copies the data, if there is any, and allocates a value that is not there. -/
def setValueAllocates (values : List Value) (name : WStr) (data : List UInt8) : Bool :=
  data != [] || (values.findIdx? fun v => rtlEqualUnicodeString v.name name).isNone

/-- `cmpApplyValues` with the pool there is: the value it runs out at is refused. -/
def applyValuesOn : RecordPool → Nat → List UInt8 → Key → Key × Bool
  | _, 0, _, node => (node, true)
  | pool, count + 1, cursor, node =>
    if cursor.length < 12 then (node, false)
    else
      let nameBytes := 2 * field cursor 0 2
      let type := UInt32.ofNat (field cursor 4 4)
      let dataBytes := field cursor 8 4
      let used := roundUp8 (12 + nameBytes + dataBytes)
      if used > cursor.length then (node, false)
      else
        let name := toUnits ((cursor.drop 12).take (nameBytes % 65536))
        let data := (cursor.drop (12 + nameBytes)).take dataBytes
        if pool.isEmpty && setValueAllocates node.values name data then (node, false)
        else applyValuesOn pool.afterValue count (cursor.drop used) (cmpSetValue node name type data)

/-- `cmpApplyRecord` with the pool there is. A key that would have to be made and a new name are
refused without it; the other records, but for SET_VALUES, allocate nothing. -/
def applyRecordOn (now : UInt64) (pool : RecordPool) (depth : Nat) (top : Key) (record : Record) :
    Key × Bool :=
  if record.op = cmpOpSetValues then
    match cmpResolveRecordKey now depth top record.path false with
    | none => (top, false)
    | some (_, p) =>
      match top.get? p with
      | none => (top, false)
      | some node =>
        let r := applyValuesOn pool record.valueCount record.tail
          { node with lastWriteTime := record.lastWriteTime }
        (top.modifyAt (fun _ => r.1) p, r.2)
  else if ¬ pool.isEnough ∧ (record.op = cmpOpRenameKey ∨ record.op = cmpOpCreateKey ∧
      (cmpResolveRecordKey now depth top record.path false).isNone) then (top, false)
  else cmpApplyRecord now depth top record

/-- `cmpReplayRecords` with the pool that each record finds. -/
def replayRecordsOn (now : UInt64) (pool : Nat → RecordPool) (depth : Nat) :
    Nat → Key → List UInt8 → Nat → Key × List UInt8 × Nat
  | 0, top, rest, applied => (top, rest, applied)
  | rounds + 1, top, rest, applied =>
    match cmpReadRecord rest with
    | none => (top, rest, applied)
    | some (record, rest) =>
      match applyRecordOn now (pool applied) depth top record with
      | (top, true) => replayRecordsOn now pool depth rounds top rest (applied + 1)
      | (top, false) => (top, rest, applied)

/-- `CmpParseSubtreeInto` with the pool that each record finds. A record that is refused for want of
it ends the replay like any other: an image whose last record it is counts as complete. -/
def parseImage (env : Env) (depth : Nat) (top : Key) (image : List UInt8) : NtStatus × Key :=
  if image.length < 16 ∨ image.length > cmpHiveMaxBytes ∨ field image 0 4 ≠ 0x32564850 ∨
      field image 4 4 ≠ 2 then (statusNotRegistryFile, top)
  else if depth = 0 ∨ depth > cmpHiveMaxDepth then (statusNotRegistryFile, top)
  else
    let r := replayRecordsOn env.now env.replayPool depth image.length top (image.drop 16) 0
    if r.2.1 = [] ∧ r.2.2 ≠ 0 then (statusSuccess, r.1)
    else (statusNotRegistryFile, cmpFreeSubtreeContents r.1)

def readImage (file : Except NtStatus (List UInt8)) : Except NtStatus (List UInt8) :=
  match file with
  | .error status => .error status
  | .ok image =>
    if image.length < 32 ∨ image.length > cmpHiveMaxBytes then .error statusNotRegistryFile
    else .ok image

/-- `NtLoadKeyEx`: the mount is volatile, its content is not, and it stays when its image is
refused. -/
def ntLoadKey (env : Env) (path : KeyPath) (file : Except NtStatus (List UInt8)) (s : CmState) :
    NtStatus × CmState :=
  if ¬ ntSuccess env.probe then (env.probe, s)
  else if ¬ env.privilege then (statusPrivilegeNotHeld, s)
  else
    match readImage file with
    | .error status => (status, s)
    | .ok image =>
      match cmpResolvePath env s.root path true false with
      | .error status => (status, s)
      | .ok { found := some _, .. } => (statusObjectNameCollision, s)
      | .ok { parent := none, found := none, .. } => (statusObjectNameNotFound, s)
      | .ok { parent := some p, leaf, found := none } =>
        if p.length + 1 ≥ cmpHiveMaxDepth then (statusInvalidParameter, s)
        else if ¬ env.nodePool then (statusInsufficientResources, s)
        else
          let r := parseImage env (p.length + 2)
            { newNode env.now leaf with isVolatile := true } image
          (r.1, s.modify p (addChild env.now r.2))

def ntUnloadKey (env : Env) (path : KeyPath) (s : CmState) : NtStatus × CmState :=
  if ¬ ntSuccess env.probe then (env.probe, s)
  else if ¬ env.privilege then (statusPrivilegeNotHeld, s)
  else
    match cmpResolvePath env s.root path false false with
    | .error status => (status, s)
    | .ok { found := none, .. } => (statusObjectNameNotFound, s)
    | .ok { found := some p, .. } =>
      match s.root.get? p, p.getLast? with
      | none, _ => (statusObjectNameNotFound, s)
      | some node, last =>
        if node.bodyCount ≠ 0 then (statusCannotDelete, s)
        else
          match last with
          | none => (statusAccessDenied, s)
          | some i =>
            if p.length = 1 then (statusAccessDenied, s)
            else
              let s := s.modify p.dropLast (removeChild env.now i)
              (statusSuccess, if node.isVolatile then s else cmpRewriteHive env s)

def cmpSubtreeHasOpenBodies : Key → Bool
  | ⟨_, _, _, _, _, _, subkeys⟩ => anyOpen subkeys
where
  /-- The loop over a subkey list. -/
  anyOpen : List Key → Bool
  | [] => false
  | child :: rest => child.bodyCount != 0 || cmpSubtreeHasOpenBodies child || anyOpen rest

def graft (scratch node : Key) : Key :=
  { node with
    values := scratch.values, lastWriteTime := scratch.lastWriteTime, subkeys := scratch.subkeys }

/-- The image is parsed into a scratch key that borrows the target's depth. -/
def ntRestoreKey (env : Env) (handle : KeyRef) (file : Except NtStatus (List UInt8)) (flags : UInt32)
    (s : CmState) : NtStatus × CmState :=
  match cmpReferenceKey env s.root handle with
  | .error status => (status, s)
  | .ok (p, node) =>
    if ¬ env.privilege then (statusPrivilegeNotHeld, s)
    else if flags ≠ 0 then (statusInvalidParameter, s)
    else if cmpSubtreeHasOpenBodies node then (statusCannotDelete, s)
    else
      match readImage file with
      | .error status => (status, s)
      | .ok image =>
        if ¬ env.nodePool then (statusInsufficientResources, s)
        else
          let r := parseImage env (p.length + 1) (newNode env.now []) image
          if ntSuccess r.1 then
            let s := s.modify p (graft r.2)
            (r.1, if node.isVolatile then s else cmpRewriteHive env s)
          else (r.1, s)

inductive Op
  | createKey (path : KeyPath) (options : CreateOptions)
  | openKey (path : KeyPath) (openLink access : Bool)
  | closeKey (handle : KeyRef)
  | deleteKey (handle : KeyRef)
  | renameKey (handle : KeyRef) (newName : WStr) (odd : Bool)
  | setValueKey (handle : KeyRef) (name : WStr) (type : UInt32) (data : List UInt8)
  | deleteValueKey (handle : KeyRef) (name : WStr)
  | setInformationKey (handle : KeyRef) (infoClass : Int) (length : Nat) (stamp : UInt64)
  | loadKey (path : KeyPath) (file : Except NtStatus (List UInt8))
  | unloadKey (path : KeyPath)
  | restoreKey (handle : KeyRef) (file : Except NtStatus (List UInt8)) (flags : UInt32)

/-- One call from a state: its status and the state after it; `none` is a panic. -/
def step (env : Env) (op : Op) (s : CmState) : Option (NtStatus × CmState) :=
  match op with
  | .createKey path options => some (ntCreateKey env path options s)
  | .openKey path openLink access => some (ntOpenKeyEx env path openLink access s)
  | .closeKey handle => some (closeKeyBody handle s)
  | .deleteKey handle => some (ntDeleteKey env handle s)
  | .renameKey handle newName odd => ntRenameKey env handle newName odd s
  | .setValueKey handle name type data => some (ntSetValueKey env handle name type data s)
  | .deleteValueKey handle name => some (ntDeleteValueKey env handle name s)
  | .setInformationKey handle infoClass length stamp =>
    some (ntSetInformationKey env handle infoClass length stamp s)
  | .loadKey path file => some (ntLoadKey env path file s)
  | .unloadKey path => some (ntUnloadKey env path s)
  | .restoreKey handle file flags => some (ntRestoreKey env handle file flags s)

end Proskrnl.Cm
