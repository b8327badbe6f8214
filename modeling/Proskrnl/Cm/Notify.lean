import Proskrnl.Library.Forest
import Proskrnl.Library.Census
import Proskrnl.Cm.KeyTree

/-!
# Change notification

`kernel/cm/notify.c` and what it stands on: key nodes with their parent pointers and lists of notify
records, the key bodies bound to them and the handles of these. An event that is appended to a
record carries the number of the append, so that two appends of one event are told apart; what is
signalled and dereferenced is kept in a log. Neither is part of the source.

The kernel is not preempted, so each action here is one stretch of code that does not wait. A
service that changes a key waits for the hive file between the change and its `CmpNotifyChange`,
which is why the two are separate actions: the key may be deleted in between, or freed, and a record
be armed. What the service keeps of the key while it waits is a `Mutation`.
-/

namespace Proskrnl.Cm.Notify
open Function (update)

/-- An event body in a record, and which append brought it there. -/
structure Armed where
  event : Nat
  token : Nat
deriving DecidableEq

/-- `CMP_NOTIFY`. -/
structure Record where
  body : Nat
  subtree : Bool
  filter : BitVec 32
  events : List Armed
deriving DecidableEq

/-- A change that a service has made and not reported yet. The service has a pointer to the node `key`:
the key itself, the parent of a deleted key, or a new key, that is reported on the parent it then
has. `held` is the body that it has a reference on. No code reads `made`, the number of the next
append when the change was made. -/
structure Mutation where
  key : Nat
  ofParent : Bool
  held : Option Nat
  change : BitVec 32
  made : Nat
deriving DecidableEq

structure State where
  -- nodes
  inUse : Nat → Bool
  parent : Nat → Option Nat
  subkeyCount : Nat → Nat
  bodyCount : Nat → Nat
  deleted : Nat → Bool
  notifyList : Nat → List Record
  -- bodies
  node : Nat → Option Nat
  handleCount : Nat → Nat
  -- what was signalled and dereferenced, oldest first, and the number of the next append
  signalled : List Armed
  nextToken : Nat
  -- what the services that wait have changed
  unreported : List Mutation

/-- One stretch of code that does not wait. The two flags of `arm` say whether there is pool for a
record and for its events. -/
inductive Action where
  | createKey (node parent : Nat)
  | deleteKey (node : Nat)
  | bindBody (node body : Nat)
  | deleteBody (body : Nat)
  | createHandle (body : Nat)
  | closeHandle (body : Nat)
  | arm (body event : Nat) (filter : BitVec 32) (subtree recordPool eventsPool : Bool)
  | mutate (m : Mutation)
  | report (m : Mutation)
deriving DecidableEq

/-- The key that a change is reported on. -/
def Mutation.target (m : Mutation) (s : State) : Option Nat :=
  if m.ofParent then s.parent m.key else some m.key

namespace State

def cmpFindNotify (s : State) (node body : Nat) : Option Record :=
  (s.notifyList node).find? fun r => r.body = body

/-- `CmpFireNotify` on the records of a node that `p` picks, without freeing them. -/
def fireNotify (s : State) (node : Nat) (p : Record → Bool) : State :=
  { s with
    notifyList := update s.notifyList node
      ((s.notifyList node).map fun r => if p r then { r with events := [] } else r)
    signalled := s.signalled ++ ((s.notifyList node).filter p).flatMap Record.events }

def cmpCheckNotify (s : State) (node : Nat) (change : BitVec 32) (notSubtree : Bool) : State :=
  s.fireNotify node fun r => (notSubtree || r.subtree) && decide (change &&& r.filter ≠ 0)

/-- The ancestors of a node, nearest first; a tree has at most `CMP_HIVE_MAX_DEPTH` levels, and
nothing comes of a walk that goes on beyond them. -/
def ancestors (s : State) (node : Nat) : Option (List Nat) :=
  Forest.climb s.parent none cmpHiveMaxDepth (s.parent node)

def cmpNotifyChange (s : State) (node : Nat) (change : BitVec 32) : Option State :=
  (s.ancestors node).map fun above =>
    above.foldl (fun s ancestor => s.cmpCheckNotify ancestor change false)
      (s.cmpCheckNotify node change true)

/-- A service goes on and reports its change; nothing comes of it where the key was freed. -/
def reportMutation (s : State) (m : Mutation) : Option State :=
  if s.inUse m.key then
    let s := { s with unreported := s.unreported.erase m }
    match m.target s with
    | none => some s
    | some node => s.cmpNotifyChange node m.change
  else none

/-- The last handle in the system fires and frees the record of the open. -/
def cmpCloseKeyBody (s : State) (body systemHandleCount : Nat) : State :=
  if systemHandleCount ≠ 1 then s
  else
    match s.node body with
    | none => s
    | some node =>
      match s.cmpFindNotify node body with
      | none => s
      | some r =>
        { s with
          notifyList := update s.notifyList node
            ((s.notifyList node).eraseP fun r => r.body = body)
          signalled := s.signalled ++ r.events }

def cmpArmNotify (s : State) (body event : Nat) (filter : BitVec 32)
    (subtree recordPool eventsPool : Bool) : State :=
  match s.node body with
  | none => s
  | some node =>
    let found : Option (List Record) :=
      match s.cmpFindNotify node body with
      | some _ => some (s.notifyList node)
      | none =>
        if recordPool then some ({ body, subtree, filter, events := [] } :: s.notifyList node)
        else none
    match found with
    | none => s
    | some records =>
      if eventsPool then
        { s with
          notifyList := update s.notifyList node (records.map fun r =>
            if r.body = body then { r with events := r.events ++ [⟨event, s.nextToken⟩] } else r)
          nextToken := s.nextToken + 1 }
      else { s with notifyList := update s.notifyList node records }

/-- A node without bodies is freed, which asserts that it has no records and no subkeys. -/
def freeNode (s : State) (node : Nat) : Option State :=
  if s.notifyList node = [] ∧ s.subkeyCount node = 0 then
    some { s with
      inUse := update s.inUse node false
      deleted := update s.deleted node false }
  else none

def cmpDeleteKeyBody (s : State) (body : Nat) : Option State :=
  match s.node body with
  | none => some s
  | some node =>
    let s := { s with
      node := update s.node body none
      bodyCount := update s.bodyCount node (s.bodyCount node - 1) }
    if s.deleted node ∧ s.bodyCount node = 0 then s.freeNode node else some s

/-- What NtDeleteKey does to a key without subkeys, and CmpDeleteNodeRecursive to each key of a
subtree in turn, the lowest first. -/
def deleteKey (s : State) (node : Nat) : Option State :=
  match s.parent node with
  | none => some s
  | some parent =>
    let s := { s with
      parent := update s.parent node none
      subkeyCount := update s.subkeyCount parent (s.subkeyCount parent - 1)
      deleted := update s.deleted node true }
    if s.bodyCount node = 0 then s.freeNode node else some s

def cmpKeyDepth (s : State) (node : Nat) : Option Nat :=
  (Forest.climb s.parent none cmpHiveMaxDepth (some node)).map List.length

def cmpAllocateNode (s : State) (node parent : Nat) : State :=
  { s with
    inUse := update s.inUse node true
    parent := update s.parent node (some parent)
    subkeyCount := update (update s.subkeyCount node 0) parent
      (s.subkeyCount parent + 1)
    bodyCount := update s.bodyCount node 0
    deleted := update s.deleted node false
    notifyList := update s.notifyList node [] }

/-- A body allocated and bound to a node in `CmpCreateKeyHandle`. -/
def bindBody (s : State) (node body : Nat) : State :=
  { s with
    node := update s.node body (some node)
    bodyCount := update s.bodyCount node (s.bodyCount node + 1) }

/-- Which actions the callers of these functions may take. -/
def enabled (s : State) : Action → Bool
  | .createKey node parent =>
    !s.inUse node && s.inUse parent && !s.deleted parent &&
      match s.cmpKeyDepth parent with
      | some depth => decide (depth < cmpHiveMaxDepth)
      | none => false
  | .deleteKey node =>
    s.inUse node && !s.deleted node && decide (s.subkeyCount node = 0) && (s.parent node).isSome
  | .bindBody node body => s.inUse node && !s.deleted node && (s.node body).isNone
  | .deleteBody body => (s.node body).isSome && decide (s.handleCount body = 0) &&
      s.unreported.all fun m => m.held ≠ some body
  | .createHandle body => (s.node body).isSome
  | .closeHandle body => decide (0 < s.handleCount body)
  | .arm body .. =>
    decide (0 < s.handleCount body) &&
      match s.node body with
      | some node => !s.deleted node
      | none => false
  | .mutate m => s.inUse m.key && decide (m.made = s.nextToken) &&
      m.held.all fun body => (s.node body).isSome
  | .report m => decide (m ∈ s.unreported)

/-- What an action does; nothing comes of it where an assertion fails, a walk does not end or what is
used was freed. -/
def step (s : State) : Action → Option State
  | .createKey node parent => some (s.cmpAllocateNode node parent)
  | .deleteKey node => s.deleteKey node
  | .bindBody node body => some (s.bindBody node body)
  | .deleteBody body => s.cmpDeleteKeyBody body
  | .createHandle body =>
    some { s with handleCount := update s.handleCount body (s.handleCount body + 1) }
  | .closeHandle body =>
    some ({ s with
      handleCount := update s.handleCount body (s.handleCount body - 1)
      }.cmpCloseKeyBody body (s.handleCount body))
  | .arm body event filter subtree recordPool eventsPool =>
    some (s.cmpArmNotify body event filter subtree recordPool eventsPool)
  | .mutate m => some { s with unreported := s.unreported ++ [m] }
  | .report m => s.reportMutation m

/-- The registry after `CmInitialize` has made the root key and its permanent body. -/
def initial : State where
  inUse n := n = 0
  parent _ := none
  subkeyCount _ := 0
  bodyCount n := if n = 0 then 1 else 0
  deleted _ := false
  notifyList _ := []
  node b := if b = 0 then some 0 else none
  handleCount _ := 0
  signalled := []
  nextToken := 0
  unreported := []

end State

/-- What an append waits for: the filter and the reach are those of its record. -/
structure Watch where
  body : Nat
  node : Nat
  filter : BitVec 32
  subtree : Bool

def Record.watch (r : Record) (node : Nat) : Watch := ⟨r.body, node, r.filter, r.subtree⟩

/-- The watched key is the one that changed, or above it and watched with its subtree. -/
def Reaches (s : State) (w : Watch) (node : Nat) : Prop :=
  node = w.node ∨ (w.subtree = true ∧ ∃ p, s.parent node = some p ∧ Forest.Under s.parent p w.node)

/-- A change hits a watch that waits for it, on the key that it is reported on or above. -/
def Mutation.Hits (m : Mutation) (s : State) (w : Watch) : Prop :=
  m.change &&& w.filter ≠ 0 ∧ ∃ node, m.target s = some node ∧ Reaches s w node

def LastClose (body : Nat) (s : State) (a : Action) : Prop :=
  a = .closeHandle body ∧ s.handleCount body = 1

/-- A change that hits the watch is made. -/
def Made (w : Watch) (m : Mutation) (s : State) (a : Action) : Prop := a = .mutate m ∧ m.Hits s w

/-- Such a change is made, or the open is closed. -/
def Hits (w : Watch) (s : State) (a : Action) : Prop := (∃ m, Made w m s a) ∨ LastClose w.body s a

/-- A change is reported where it hits the watch, or its open is closed. -/
def Signals (w : Watch) (s : State) (a : Action) : Prop :=
  (∃ m, a = .report m ∧ m.Hits s w) ∨ LastClose w.body s a

/-- No change that was not reported yet is overtaken: no key is deleted while a change of it hits an
armed watch that is out of reach then, none is freed, and no event is signalled for a change that was
made before it was armed. -/
def State.Orderly (s : State) : Action → Prop
  | .deleteKey node => ∀ m ∈ s.unreported, m.key = node → 0 < s.bodyCount node ∧
    ∀ n, ∀ r ∈ s.notifyList n, r.events ≠ [] → m.Hits s (r.watch n) → n = node ∧ m.ofParent = false
  | .deleteBody body => ∀ node, s.node body = some node → s.deleted node = true →
    s.bodyCount node = 1 → ∀ m ∈ s.unreported, m.key ≠ node
  | .report m => ∀ n, ∀ r ∈ s.notifyList n, m.Hits s (r.watch n) → ∀ e ∈ r.events, e.token < m.made
  | _ => True

/-- The runs whose steps are all allowed. -/
inductive Run (allowed : State → Action → Prop) : State → List Action → State → Prop
  | nil {s : State} : Run allowed s [] s
  | cons {s s' s'' : State} {a : Action} {rest : List Action} : s.enabled a = true → allowed s a →
    s.step a = some s' → Run allowed s' rest s'' → Run allowed s (a :: rest) s''

inductive Meets (kind : State → Action → Prop) : State → List Action → Prop
  | now {s : State} {a : Action} {rest : List Action} : kind s a → Meets kind s (a :: rest)
  | later {s s' : State} {a : Action} {rest : List Action} : s.step a = some s' →
    Meets kind s' rest → Meets kind s (a :: rest)

end Proskrnl.Cm.Notify
