import Mathlib
import Proskrnl.Lib.Rtl

/-!
# The key tree

`kernel/cm/registry.c`, the tree primitives. A key holds its values and its subkeys in two lists
that are kept in case-insensitive order; a pointer to a node is the list of sibling indices that
leads to it from the key it is reached from. The parent pointer of a node is therefore the position
without its last index, and `CmpKeyDepth` is the length of the position below a key of known depth.
-/

namespace Proskrnl.Cm

/-- `CMP_VALUE`. -/
structure Value where
  name : WStr
  type : UInt32
  data : List UInt8
deriving DecidableEq

/-- `CMP_KEY_NODE`, with its two lists; `deleted` nodes are not part of a tree. -/
structure Key where
  name : WStr
  values : List Value
  lastWriteTime : UInt64
  bodyCount : Nat
  isVolatile : Bool
  isLink : Bool
  subkeys : List Key

/-- A key is made of its fields; the recursive structure has no definitional eta. -/
@[simp] theorem Key.eta (k : Key) :
    Key.mk k.name k.values k.lastWriteTime k.bodyCount k.isVolatile k.isLink k.subkeys = k := by
  cases k; rfl

/-- A node pointer: sibling indices from the top down. -/
abbrev Pos := List Nat

theorem Key.induct {motive : Key → Prop}
    (h : ∀ k, (∀ c ∈ k.subkeys, motive c) → motive k) (k : Key) : motive k := by
  refine @Key.rec motive (fun l => ∀ c ∈ l, motive c) ?_ ?_ ?_ k
  · intro name values time bodies volatileFlag link subkeys ih
    exact h _ ih
  · intro c hc; cases hc
  · intro head tail hhead htail c hc
    rcases List.mem_cons.mp hc with rfl | hc
    · exact hhead
    · exact htail c hc

def Key.get? : Key → Pos → Option Key
  | k, [] => some k
  | k, i :: p => (k.subkeys[i]?).bind fun c => c.get? p

/-- Change the node at a position in place. -/
def Key.modifyAt (f : Key → Key) : Pos → Key → Key
  | [], k => f k
  | i :: p, k => { k with subkeys := k.subkeys.modify i (Key.modifyAt f p) }

def cmpHiveMaxDepth : Nat := 96

def KeyBefore (a b : Key) : Prop := Before a.name b.name

def ValueBefore (a b : Value) : Prop := Before a.name b.name

instance : DecidableRel KeyBefore := fun a b => inferInstanceAs (Decidable (Before a.name b.name))

instance : DecidableRel ValueBefore := fun a b =>
  inferInstanceAs (Decidable (Before a.name b.name))

/-- Before the first sibling that sorts after the node. -/
def cmpLinkSubkeySorted (siblings : List Key) (node : Key) : List Key :=
  siblings.orderedInsert KeyBefore node

/-- The index at which `CmpLinkSubkeySorted` links a node of this name. -/
def sortedIndex (siblings : List Key) (name : WStr) : Nat :=
  siblings.findIdx fun s => decide (Before name s.name)

/-- The node `CmpAllocateNode` fills in. -/
def newNode (now : UInt64) (name : WStr) : Key :=
  { name, values := [], lastWriteTime := now, bodyCount := 0, isVolatile := false,
    isLink := false, subkeys := [] }

/-- `CmpAllocateNode` under `parent` at depth `depth`, the pool permitting; the result is the parent
with the node linked. -/
def cmpAllocateNode (now : UInt64) (depth : Nat) (parent : Key) (name : WStr) : Option Key :=
  if depth ≥ cmpHiveMaxDepth then none
  else some { parent with subkeys := cmpLinkSubkeySorted parent.subkeys (newNode now name) }

def cmpFindSubkey (node : Key) (name : WStr) : Option Nat :=
  node.subkeys.findIdx? fun c => rtlEqualUnicodeString c.name name

def cmpFindValue (node : Key) (name : WStr) : Option Value :=
  node.values.find? fun v => rtlEqualUnicodeString v.name name

/-- The value list after `CmpSetValue`: a binding in place keeps its name and its case. -/
def setValueIn (values : List Value) (name : WStr) (type : UInt32) (data : List UInt8) :
    List Value :=
  match values.findIdx? fun v => rtlEqualUnicodeString v.name name with
  | some i => values.modify i fun v => { v with type, data }
  | none => values.orderedInsert ValueBefore { name, type, data }

def cmpSetValue (node : Key) (name : WStr) (type : UInt32) (data : List UInt8) : Key :=
  { node with values := setValueIn node.values name type data }

/-- The node without the value, `none` when it has none of that name. -/
def cmpRemoveValue (node : Key) (name : WStr) : Option Key :=
  match node.values.findIdx? fun v => rtlEqualUnicodeString v.name name with
  | some i => some { node with values := node.values.eraseIdx i }
  | none => none

/-- `CmpRenameNode` on child `i` of `parent`, the pool permitting. -/
def cmpRenameNode (parent : Key) (i : Nat) (newName : WStr) : Key :=
  match parent.subkeys[i]? with
  | some child =>
    { parent with
      subkeys := cmpLinkSubkeySorted (parent.subkeys.eraseIdx i) { child with name := newName } }
  | none => parent

def backslash : UInt16 := 0x5C

/-- `CmpBuildPath` with `relativeTo` set, over the names from there (exclusive) down to the node: an
anonymous node contributes nothing, and separators stand only between components. -/
def cmpBuildPath (names : List WStr) : WStr :=
  names.foldl (fun used name =>
    if name = [] then used else if used = [] then name else used ++ backslash :: name) []

/-- The names on the way from a key (exclusive) down to a position below it. -/
def Key.namesTo : Key → Pos → List WStr
  | _, [] => []
  | k, i :: p =>
    match k.subkeys[i]? with
    | some c => c.name :: c.namesTo p
    | none => []

/-- The segments `CmpWalkPathCounted` cuts a path into: one trailing separator ends the last
segment, any other separator starts a new one. -/
def pathSegments : WStr → List WStr
  | [] => []
  | c :: rest =>
    if c = backslash then [] :: pathSegments rest
    else
      match pathSegments rest with
      | [] => [[c]]
      | s :: ss => (c :: s) :: ss

/-- The loop of `CmpWalkPathCounted` over its segments, from `node` at depth `depth`: the tree with
what was created, and where the walk ended. -/
def cmpWalkSegments (now : UInt64) (create : Bool) : Nat → List WStr → Key → Option (Key × Pos)
  | _, [], node => some (node, [])
  | depth, segment :: rest, node =>
    if segment = [] then none
    else
      let descend (node : Key) (i : Nat) : Option (Key × Pos) :=
        match node.subkeys[i]? with
        | none => none
        | some child =>
          (cmpWalkSegments now create (depth + 1) rest child).map fun r =>
            ({ node with subkeys := node.subkeys.set i r.1 }, i :: r.2)
      match cmpFindSubkey node segment with
      | some i => descend node i
      | none =>
        if create then
          match cmpAllocateNode now depth node segment with
          | some node' => descend node' (sortedIndex node.subkeys segment)
          | none => none
        else none

/-- `CmpWalkPathCounted` from `start` at depth `depth`. -/
def cmpWalkPathCounted (now : UInt64) (depth : Nat) (start : Key) (path : WStr) (create : Bool) :
    Option (Key × Pos) :=
  cmpWalkSegments now create depth (pathSegments path) start

end Proskrnl.Cm
