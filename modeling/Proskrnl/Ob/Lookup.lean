import Proskrnl.Library.Paths
import Proskrnl.Ob.Object

/-!
# The path walk

`ObpFindEntry`, `ObpLookupName` and `ObpLookupParseObject` of `kernel/ob/namespace.c`. A counted string
is its whole units, with one byte more where its `Length` is odd; a rest that is absent (`Buffer` 0)
is told from one that is empty. Each substitution of a symbolic link leaves a record of the bytes it
has allocated and of those it has written.
-/

namespace Proskrnl.Ob
open Ps (Body HandleTable HandleEntry AccessMask)
open Paths (cut)

def backslash : UInt16 := 0x5C

def directoryTraverse : AccessMask := 0x0002
def objCaseInsensitive : UInt32 := 0x00000040

def obpMaxReparses : Nat := 32
def obpMaxNameUnits : Nat := 0xFFFF / 2

/-- `UNICODE_STRING`. -/
structure CountedString where
  units : WStr
  odd : Bool := false
  deriving DecidableEq

/-- `Length` -/
def CountedString.bytes (n : CountedString) : Nat := 2 * n.units.length + if n.odd then 1 else 0

/-- What `ObpLookupName` is called with; `pool` says which of its allocations succeed. -/
structure LookupRequest where
  rootDirectory : Nat := 0
  name : CountedString
  attributes : UInt32 := 0
  followFinalLink : Bool := true
  forCreate : Bool := false
  parseType : Option ObjectType := none
  extraAttributes : UInt32 := 0
  pool : Nat → Bool

def LookupRequest.caseInsensitive (q : LookupRequest) : Bool :=
  (q.attributes ||| q.extraAttributes) &&& objCaseInsensitive ≠ 0

/-- A substitution: the bytes it allocates, and the offset and the length of what it writes. -/
structure Substitution where
  allocated : Nat
  writes : List (Nat × Nat)
  deriving DecidableEq

inductive LookupResult
  | failed (status : NtStatus)
  | object (b : Body)
  | parse (b : Body) (remaining : Option CountedString)
  | leaf (parent : Body) (name : WStr)
  deriving DecidableEq

structure Walk where
  current : Body
  remaining : CountedString
  reparses : Nat := 0
  reparsedFinal : Bool := false
  log : List Substitution := []

inductive Turn
  | again (w : Walk)
  | ended (r : LookupResult) (log : List Substitution)

/-- `RtlEqualUnicodeString` in one of its modes. -/
def equalNames (caseInsensitive : Bool) (s t : WStr) : Bool :=
  if caseInsensitive then rtlEqualUnicodeString s t else s == t

def obpFindEntry (s : ObState) (d : Body) (component : WStr) (caseInsensitive : Bool) :
    Except Halt (Option Body) :=
  match (s.objects d).map Object.body with
  | some (.directory entries) =>
    .ok (entries.find? fun c => (s.objects c).any fun o => equalNames caseInsensitive o.name component)
  | _ => .error .zeroedDirectory

def ObState.target (s : ObState) (l : Body) : WStr :=
  match (s.objects l).map Object.body with
  | some (.symbolicLink target) => target
  | _ => []

/-- The path that is rebuilt from a target and the rest behind the link, and what it takes. -/
def rebuild (target : WStr) (rest : Option CountedString) : WStr × Substitution :=
  match rest with
  | none => (target, ⟨2 * target.length, [(0, 2 * target.length)]⟩)
  | some r =>
    if r.units ≠ [] then
      (target ++ backslash :: r.units,
        ⟨2 * (target.length + (1 + r.units.length)),
          [(0, 2 * target.length), (2 * target.length, 2), (2 * (target.length + 1), r.bytes)]⟩)
    else if r.bytes = 0 then
      (target ++ [backslash],
        ⟨2 * (target.length + 1), [(0, 2 * target.length), (2 * target.length, 2)]⟩)
    else (target, ⟨2 * target.length, [(0, 2 * target.length)]⟩)

section
variable (q : LookupRequest)

def Walk.leave (w : Walk) (s : ObState) (status : NtStatus) : Except Halt (ObState × Turn) := do
  let s ← obDereferenceObject s w.current
  .ok (s, .ended (.failed status) w.log)

def Walk.hand (w : Walk) (s : ObState) (child : Body) : Except Halt ObState := do
  let s ← obfReferenceObject s child
  obDereferenceObject s w.current

/-- The walk starts again, at the root, with the target of a link for what it has consumed. -/
def reparse (w : Walk) (s : ObState) (link : Body) (rest : Option CountedString) :
    Except Halt (ObState × Turn) :=
  if obpMaxReparses < w.reparses + 1 then w.leave s statusInvalidParameter
  else
    let (rebuilt, substitution) := rebuild (s.target link) rest
    if obpMaxNameUnits < rebuilt.length then w.leave s statusObjectNameInvalid
    else if rebuilt = [] then .error .emptyAllocation
    else if !q.pool w.reparses then w.leave s statusInsufficientResources
    else do
      let log := w.log ++ [substitution]
      let s ← obDereferenceObject s w.current
      match rebuilt with
      | [] => .ok (s, .ended (.failed statusObjectPathSyntaxBad) log)
      | c :: remaining =>
        if c ≠ backslash then .ok (s, .ended (.failed statusObjectPathSyntaxBad) log)
        else if remaining = [] then .ok (s, .ended (.failed statusObjectNameInvalid) log)
        else do
          let s ← obfReferenceObject s s.root
          .ok (s, .again
            { current := s.root
              remaining := ⟨remaining, false⟩
              reparses := w.reparses + 1
              reparsedFinal := rest.isNone
              log })

/-- The child that the next component names, with the rest of the path. -/
def lookupChild (w : Walk) (s : ObState) (child : Body) (rest : Option CountedString) :
    Except Halt (ObState × Turn) :=
  let trailingEmpty := rest.any fun r => r.bytes = 0
  if q.parseType.isSome ∧ s.type child = q.parseType then do
    let s ← w.hand s child
    .ok (s, .ended (.parse child rest) w.log)
  else if trailingEmpty ∧ s.type child ≠ some .symbolicLink then
    w.leave s statusObjectNameInvalid
  else if s.type child = some .symbolicLink ∧ (rest.isSome ∨ q.followFinalLink) then
    reparse q w s child rest
  else
    match rest with
    | none => do
      let s ← w.hand s child
      .ok (s, .ended (.object child) w.log)
    | some remaining =>
      if s.type child ≠ some .directory then
        w.leave s (if q.forCreate then statusObjectTypeMismatch else statusObjectNameNotFound)
      else do
        let s ← w.hand s child
        .ok (s, .again { w with current := child, remaining })

/-- One turn of the loop of `ObpLookupName`. -/
def lookupTurn (w : Walk) (s : ObState) : Except Halt (ObState × Turn) :=
  let (component, units) := cut backslash w.remaining.units
  let rest : Option CountedString := units.map fun units => ⟨units, w.remaining.odd⟩
  if component = [] then w.leave s statusObjectNameInvalid
  else do
    match ← obpFindEntry s w.current component q.caseInsensitive with
    | none =>
      if rest.isSome || w.reparsedFinal then w.leave s statusObjectPathNotFound
      else .ok (s, .ended (.leaf w.current component) w.log)
    | some child => lookupChild q w s child rest

/-- The loop; `none` when it is not over in so many turns. -/
def lookupLoop : Nat → Walk → ObState → Except Halt (Option (ObState × LookupResult × List Substitution))
  | 0, _, _ => .ok none
  | turns + 1, w, s => do
    match ← lookupTurn q w s with
    | (s, .again w) => lookupLoop turns w s
    | (s, .ended r log) => .ok (some (s, r, log))

/-- The starting directory, with whether a reference to it was taken. -/
def startingDirectory (caller : Caller) (s : ObState) :
    Except Halt (ObState × Except NtStatus (Body × Bool)) :=
  if q.rootDirectory ≠ 0 then do
    match ← obReferenceObjectByHandle s caller q.rootDirectory directoryTraverse .directory with
    | (s, .error status) => .ok (s, .error status)
    | (s, .ok rootBody) =>
      if q.name.units.head? = some backslash then
        let s ← obDereferenceObject s rootBody
        .ok (s, .error statusObjectPathSyntaxBad)
      else .ok (s, .ok (rootBody, true))
  else if q.name.units.head? ≠ some backslash then .ok (s, .error statusObjectPathSyntaxBad)
  else .ok (s, .ok (s.root, false))

def LookupRequest.stripped : CountedString :=
  match q.name.units with
  | [] => q.name
  | c :: units => if c = backslash then ⟨units, q.name.odd⟩ else q.name

def obpLookupName (turns : Nat) (caller : Caller) (s : ObState) :
    Except Halt (Option (ObState × LookupResult × List Substitution)) := do
  match ← startingDirectory q caller s with
  | (s, .error status) => .ok (some (s, .failed status, []))
  | (s, .ok (rootBody, rootReferenced)) =>
    let s ← if rootReferenced then .ok s else obfReferenceObject s rootBody
    if q.stripped.bytes = 0 then .ok (some (s, .object rootBody, []))
    else lookupLoop q turns { current := rootBody, remaining := q.stripped } s

/-- What a caller of `ObpLookupParseObject` asks for; its attributes and its name may be missing. -/
structure ParseRequest where
  hasAttributes : Bool := true
  probe : NtStatus := statusSuccess
  rootDirectory : Nat := 0
  objectName : Option CountedString
  attributes : UInt32 := 0
  extraAttributes : UInt32 := 0
  pool : Nat → Bool

def ParseRequest.lookup (q : ParseRequest) (parseType : ObjectType) (name : CountedString) :
    LookupRequest :=
  { rootDirectory := q.rootDirectory
    name
    attributes := q.attributes
    parseType := some parseType
    extraAttributes := q.extraAttributes
    pool := q.pool }

end

/-- The last check of `ObpLookupParseObject`: the type of what was found. -/
def obpCheckParse (parseType : ObjectType) (s : ObState) (found : Body)
    (remaining : Option CountedString) :
    Except Halt (Option (ObState × Except NtStatus (Body × Option CountedString))) :=
  if s.type found ≠ some parseType then do
    let s ← obDereferenceObject s found
    .ok (some (s, .error statusObjectTypeMismatch))
  else .ok (some (s, .ok (found, remaining)))

/-- What `ObpLookupParseObject` makes of a lookup. -/
def obpParseResult (parseType : ObjectType) (s : ObState) (r : LookupResult) :
    Except Halt (Option (ObState × Except NtStatus (Body × Option CountedString))) :=
  match r with
  | .failed status => .ok (some (s, .error status))
  | .leaf parent _ => do
    let s ← obDereferenceObject s parent
    .ok (some (s, .error statusObjectNameNotFound))
  | .object found => obpCheckParse parseType s found none
  | .parse found remaining => obpCheckParse parseType s found remaining

/-- The parse object with what remains of the name, or a status. -/
def obpLookupParseObject (turns : Nat) (caller : Caller) (parseType : ObjectType) (q : ParseRequest)
    (s : ObState) : Except Halt (Option (ObState × Except NtStatus (Body × Option CountedString))) :=
  if ¬ ntSuccess q.probe then .ok (some (s, .error q.probe))
  else if ¬ q.hasAttributes then .ok (some (s, .error statusInvalidParameter))
  else
    match q.objectName with
    | none => .ok (some (s, .error statusObjectPathSyntaxBad))
    | some name => do
      match ← obpLookupName (q.lookup parseType name) turns caller s with
      | none => .ok none
      | some (s, r, _) => obpParseResult parseType s r

end Proskrnl.Ob
