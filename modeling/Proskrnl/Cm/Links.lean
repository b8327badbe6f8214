import Proskrnl.Cm.Refine

/-!
# Links are substituted

What `CmpResolvePath` of `kernel/cm/registry.c` is for, over the components of a path: the first
link that is met is replaced by its target, the names behind it follow, and so on from the root
until no link is left (`Substitutes`). The source keeps targets and composed paths in counted
strings of 16-bit lengths and cuts what is longer; `Short` says that nothing is cut on the way, and
a resolution that succeeds is the substitution exactly then.
-/

namespace Proskrnl.Cm

open Bytes List Option

/-! ## Components -/

/-- The components of a path: separators may be doubled and may stand at both ends. -/
def components (path : WStr) : List WStr := (pathSegments path).filter (· ≠ [])

theorem components_nil : components [] = [] := rfl

theorem components_sep (rest : WStr) : components (backslash :: rest) = components rest := rfl

theorem components_dropWhile (path : WStr) :
    components (path.dropWhile (· = backslash)) = components path := by
  induction path with
  | nil => rfl
  | cons c path ih =>
    rw [dropWhile_cons]
    split
    case isTrue hc =>
      rw [of_decide_eq_true hc, components_sep]
      exact ih
    case isFalse => rfl

theorem components_single {s : WStr} (hne : s ≠ []) (hs : backslash ∉ s) : components s = [s] := by
  rw [components, pathSegments_of_no_separator hne hs]
  simp [hne]

theorem components_append_sep {s : WStr} (t : WStr) (hne : s ≠ []) (hs : backslash ∉ s) :
    components (s ++ backslash :: t) = s :: components t := by
  rw [components, pathSegments_append t hne hs]
  simp [hne, components]

theorem pathSegments_cons {c : UInt16} (hc : c ≠ backslash) (s : WStr) :
    ∃ x xs, pathSegments (c :: s) = (c :: x) :: xs := by
  rw [pathSegments, if_neg hc]
  split
  · exact ⟨[], [], rfl⟩
  · exact ⟨_, _, rfl⟩

theorem components_append (s t : WStr) :
    components (s ++ backslash :: t) = components s ++ components t := by
  induction s with
  | nil => rfl
  | cons c s ih =>
    by_cases hc : c = backslash
    · rw [hc, cons_append, components_sep, components_sep]
      exact ih
    · rw [cons_append, components, components, pathSegments, pathSegments, if_neg hc,
        if_neg hc]
      cases s with
      | nil => simp [pathSegments, components]
      | cons d s =>
        by_cases hd : d = backslash
        · rw [hd, cons_append, components_sep, components_sep] at ih
          rw [hd, cons_append, pathSegments, pathSegments, if_pos rfl, if_pos rfl]
          simpa [components] using ih
        · -- the first segment of both is the one that starts with the next unit
          obtain ⟨x, xs, hx⟩ := pathSegments_cons hd s
          obtain ⟨y, ys, hy⟩ := pathSegments_cons hd (s ++ backslash :: t)
          rw [cons_append, components, components, hx, hy] at ih
          rw [cons_append, hx, hy]
          simp only [ne_eq, reduceCtorEq, not_false_eq_true, decide_true, filter_cons_of_pos,
            cons_append, List.cons.injEq, true_and] at ih ⊢
          exact ih

theorem cmpNextComponent_none {path : WStr} (h : cmpNextComponent path = none) :
    components path = [] := by
  rw [cmpNextComponent] at h
  split at h
  case isTrue hnil => rw [← components_dropWhile, hnil, components_nil]
  case isFalse => cases h

theorem cmpNextComponent_components {path component rest : WStr}
    (h : cmpNextComponent path = some (component, rest)) :
    components path = component :: components rest ∧ rest.length < path.length := by
  obtain ⟨hne, hsep⟩ := cmpNextComponent_some h
  rw [cmpNextComponent] at h
  split at h
  case isTrue => cases h
  case isFalse hnil =>
    simp only [some.injEq, Prod.mk.injEq] at h
    obtain ⟨hcomp, hrest⟩ := h
    have hsplit : component ++ rest = path.dropWhile (· = backslash) := by
      rw [← hcomp, ← hrest]
      exact takeWhile_append_dropWhile
    have hlength : rest.length < path.length := by
      have hle := length_dropWhile_le (· = backslash) path
      rw [← hsplit, length_append] at hle
      have := length_pos_iff.mpr hne
      omega
    refine ⟨?_, hlength⟩
    rw [← components_dropWhile, ← hsplit]
    cases rest with
    | nil => rw [append_nil, components_single hne hsep, components_nil]
    | cons c rest =>
      have hc : c = backslash := by
        have := head_dropWhile_not (· ≠ backslash) (l := path.dropWhile (· = backslash))
          (by rw [hrest]; exact cons_ne_nil _ _)
        simpa only [hrest, head_cons, decide_eq_false_iff_not, ne_eq, Classical.not_not]
          using this
      rw [hc, components_append_sep rest hne hsep, components_sep]

theorem cmpPathExhausted_iff (path : WStr) :
    cmpPathExhausted path = true ↔ components path = [] := by
  cases h : cmpNextComponent path with
  | none =>
    refine iff_of_true ?_ (cmpNextComponent_none h)
    rw [cmpNextComponent] at h
    split at h
    case isTrue hnil =>
      rw [cmpPathExhausted, List.all_eq_true]
      exact dropWhile_eq_nil_iff.mp hnil
    case isFalse => cases h
  | some next =>
    obtain ⟨component, rest⟩ := next
    have hcomponents := (cmpNextComponent_components h).1
    refine iff_of_false ?_ (by rw [hcomponents]; exact cons_ne_nil _ _)
    intro hall
    rw [cmpNextComponent, dropWhile_eq_nil_iff.mpr (List.all_eq_true.mp hall)] at h
    cases h

/-- What the SymbolicLinkValue of a link names below `\Registry`, whole. -/
def linkTarget (link : Key) : Option WStr :=
  (cmpFindValue link symbolicLinkValue).bind fun value =>
    let units := toUnits (value.data.take (2 * (value.data.length / 2)))
    if units.head? = some backslash ∧
        rtlEqualUnicodeString (units.take registryPrefix.length) registryPrefix = true ∧
        (registryPrefix.length < units.length →
          units[registryPrefix.length]? = some backslash) then
      some (units.drop registryPrefix.length)
    else none

def walkTo (root : Key) : Pos → List WStr → Option Pos
  | p, [] => some p
  | p, name :: names => (childAt root p name).bind fun q => walkTo root q names

/-- The first link that is met on the way along names, and the names behind it; a link at the end is
one of them unless it is to be kept. -/
def meet (root : Key) (openLink : Bool) : Pos → List WStr → Option (Pos × List WStr)
  | p, [] => if linkAt root p && !openLink then some (p, []) else none
  | p, name :: names =>
    (childAt root p name).bind fun q =>
      if linkAt root q && !names.isEmpty then some (q, names) else meet root openLink q names

/-- `n` links replaced in turn, each by its target and the names behind it. -/
inductive Substitutes (root : Key) (openLink : Bool) :
    Nat → Pos → List WStr → Pos → List WStr → Prop
  | refl {p : Pos} {names : List WStr} : Substitutes root openLink 0 p names p names
  | step {n : Nat} {p p' q : Pos} {names names' rest : List WStr} {link : Key} {target : WStr} :
    meet root openLink p names = some (q, rest) → root.get? q = some link →
    linkTarget link = some target →
    Substitutes root openLink n [] (components target ++ rest) p' names' →
    Substitutes root openLink (n + 1) p names p' names'

/-- What names without a link denote: a key, or for a create a parent and the last name. -/
def Denotes (root : Key) (forCreate : Bool) (p : Pos) (names : List WStr) (r : Resolved) : Prop :=
  match forCreate, names.getLast? with
  | true, some leaf => ∃ parent, walkTo root p names.dropLast = some parent ∧
      r = { parent := some parent, leaf, found := childAt root parent leaf }
  | _, _ => ∃ q, walkTo root p names = some q ∧ r = { parent := none, leaf := [], found := some q }

/-- The path with which a resolution goes on behind a link, whole. -/
def composePath (target remainder : WStr) : WStr :=
  target ++ if remainder = [] then [] else backslash :: remainder

theorem components_composePath (target remainder : WStr) :
    components (composePath target remainder) = components target ++ components remainder := by
  rw [composePath]
  split
  case isTrue hnil => rw [hnil, append_nil, components_nil, append_nil]
  case isFalse => exact components_append target remainder

/-! ## The passes -/

/-- The link at which a pass of `CmpResolvePath` ends, and the path behind it. -/
def metLink (root : Key) (forCreate openLink : Bool) (base : Pos) (path : WStr) :
    Option (Pos × WStr) :=
  match if forCreate then createWalk root (path.length + 1) base [] path
    else openWalk root (path.length + 1) base path with
  | .error _ => none
  | .ok (.link q remainder) => some (q, remainder)
  | .ok (.stop p leaf) =>
    match if leaf = [] then some p else childAt root p leaf with
    | some q => if linkAt root q && !openLink then some (q, []) else none
    | none => none

def WalkEnd.Ends (root : Key) (openLink : Bool) (p : Pos) (names : List WStr) : WalkEnd → Prop
  | .link q remainder => meet root openLink p names = some (q, components remainder)
  | .stop q last => ∃ front, names = front ++ (if last = [] then [] else [last]) ∧
      walkTo root p front = some q ∧
      meet root openLink p names =
        match if last = [] then some q else childAt root q last with
        | some c => if linkAt root c && !openLink then some (c, []) else none
        | none => none

section
variable {env : Env} {root link : Key} {forCreate openLink : Bool} {p q base : Pos} {r : Resolved}
  {path leaf remainder target : WStr} {rounds n : Nat}

variable {e : WalkEnd}

theorem openWalk_components (hrounds : path.length < rounds)
    (h : openWalk root rounds p path = .ok e) :
    e.Ends root openLink p (components path) ∧ ∀ q last, e = .stop q last → last = [] := by
  induction rounds generalizing p path with
  | zero => cases hrounds
  | succ rounds ih =>
    rw [openWalk] at h
    cases hnext : cmpNextComponent path with
    | none =>
      rw [hnext] at h
      cases h
      rw [cmpNextComponent_none hnext]
      refine ⟨⟨[], rfl, rfl, rfl⟩, fun q last heq => ?_⟩
      cases heq
      rfl
    | some next =>
      obtain ⟨component, rest⟩ := next
      obtain ⟨hcomponents, hlength⟩ := cmpNextComponent_components hnext
      rw [hnext] at h
      simp only at h
      split at h
      case isTrue => cases h
      case isFalse =>
        cases hchild : childAt root p component with
        | none =>
          rw [hchild] at h
          cases h
        | some q =>
          rw [hchild] at h
          have hempty : (components rest).isEmpty = cmpPathExhausted rest := by
            rw [Bool.eq_iff_iff, List.isEmpty_iff, cmpPathExhausted_iff]
          have hmeet : meet root openLink p (components path) =
              if linkAt root q && !cmpPathExhausted rest then some (q, components rest)
              else meet root openLink q (components rest) := by
            rw [hcomponents, meet, hchild, bind_some, hempty]
          simp only at h
          split at h
          case isTrue hlink =>
            cases h
            rw [if_pos hlink] at hmeet
            exact ⟨hmeet, by simp⟩
          case isFalse hlink =>
            rw [if_neg hlink] at hmeet
            obtain ⟨hends, hlast⟩ := ih (by omega) h
            refine ⟨?_, hlast⟩
            cases e with
            | link q' remainder => exact hmeet.trans hends
            | stop q' last =>
              obtain ⟨front, hfront, hwalk, hends⟩ := hends
              refine ⟨component :: front, ?_, ?_, hmeet.trans hends⟩
              · rw [hcomponents, hfront, cons_append]
              · rw [walkTo, hchild]
                exact hwalk

/-- What a walk for a create has taken off the path and not yet looked up. -/
def held (leaf : WStr) : List WStr := if leaf = [] then [] else [leaf]

theorem createWalk_components (hrounds : path.length < rounds)
    (h : createWalk root rounds p leaf path = .ok e) :
    e.Ends root openLink p (held leaf ++ components path) ∧
      ∀ q last, e = .stop q last → last = [] → held leaf ++ components path = [] := by
  induction rounds generalizing p leaf path with
  | zero => cases hrounds
  | succ rounds ih =>
    rw [createWalk] at h
    cases hnext : cmpNextComponent path with
    | none =>
      rw [hnext] at h
      cases h
      rw [cmpNextComponent_none hnext, append_nil]
      refine ⟨⟨[], rfl, rfl, ?_⟩, fun q last heq hlast => ?_⟩
      · rw [held]
        split
        · rfl
        · rw [meet]
          cases childAt root p leaf with
          | none => rfl
          | some c =>
            rw [bind_some, isEmpty_nil, Bool.not_true, Bool.and_false]
            rfl
      · cases heq
        exact if_pos hlast
    | some next =>
      obtain ⟨component, rest⟩ := next
      obtain ⟨hcomponents, hlength⟩ := cmpNextComponent_components hnext
      obtain ⟨hne, hsep⟩ := cmpNextComponent_some hnext
      have hheld : held component ++ components rest = components path := by
        rw [held, if_neg hne, hcomponents]
        rfl
      rw [hnext] at h
      simp only at h
      split at h
      case isTrue => cases h
      case isFalse =>
        split at h
        case isTrue hleaf =>
          have hrest := ih (by omega) h
          rw [hheld] at hrest
          rw [held, if_pos hleaf, nil_append]
          exact hrest
        case isFalse hleaf =>
          have hnames : held leaf ++ components path = leaf :: components path := by
            rw [held, if_neg hleaf]
            rfl
          rw [hnames]
          cases hchild : childAt root p leaf with
          | none =>
            rw [hchild] at h
            cases h
          | some q =>
            rw [hchild] at h
            simp only at h
            have hmeet : meet root openLink p (leaf :: components path) =
                if linkAt root q then some (q, components path)
                else meet root openLink q (components path) := by
              rw [meet, hchild, bind_some, hcomponents, isEmpty_cons, Bool.not_false,
                Bool.and_true]
            split at h
            case isTrue hlink =>
              cases h
              have hrem : components (component ++ rest) = components path := by
                rw [cmpNextComponent] at hnext
                split at hnext
                case isTrue => cases hnext
                case isFalse =>
                  simp only [some.injEq, Prod.mk.injEq] at hnext
                  rw [← hnext.1, ← hnext.2, takeWhile_append_dropWhile, components_dropWhile]
              rw [if_pos hlink, ← hrem] at hmeet
              exact ⟨by rw [← hrem]; exact hmeet, by simp⟩
            case isFalse hlink =>
              rw [if_neg hlink] at hmeet
              obtain ⟨hends, hlast⟩ := ih (by omega) h
              rw [hheld] at hends hlast
              refine ⟨?_, fun q' last heq hnil => ?_⟩
              · cases e with
                | link q' remainder => exact hmeet.trans hends
                | stop q' last =>
                  obtain ⟨front, hfront, hwalk, hends⟩ := hends
                  refine ⟨leaf :: front, ?_, ?_, hmeet.trans hends⟩
                  · rw [hfront, cons_append]
                  · rw [walkTo, hchild]
                    exact hwalk
              · rw [hcomponents] at hlast
                exact absurd (hlast q' last heq hnil) (cons_ne_nil _ _)

variable (openLink) in
theorem walk_components (h : (if forCreate then createWalk root (path.length + 1) base [] path
      else openWalk root (path.length + 1) base path) = .ok e) :
    e.Ends root openLink base (components path) ∧
      ∀ q last, e = .stop q last →
        (forCreate = false → last = []) ∧
        (forCreate = true → last = [] → components path = []) := by
  cases forCreate with
  | false =>
    obtain ⟨hends, hlast⟩ := openWalk_components (Nat.lt_succ_self _) h
    exact ⟨hends, fun q last heq => ⟨fun _ => hlast q last heq, nofun⟩⟩
  | true =>
    obtain ⟨hends, hlast⟩ := createWalk_components (Nat.lt_succ_self _) h
    exact ⟨hends, fun q last heq => ⟨nofun, fun _ => hlast q last heq⟩⟩

theorem meet_of_metLink (h : metLink root forCreate openLink base path = some (q, remainder)) :
    meet root openLink base (components path) = some (q, components remainder) := by
  rw [metLink] at h
  split at h
  case h_1 => cases h
  case h_2 hwalk =>
    cases h
    exact (walk_components openLink hwalk).1
  case h_3 p leaf hwalk =>
    obtain ⟨front, hfront, hto, hmeet⟩ := (walk_components openLink hwalk).1
    rw [hmeet]
    split at h
    case h_1 c hc =>
      split at h
      case isTrue hlink =>
        cases h
        rw [if_pos hlink, components_nil]
      case isFalse => cases h
    case h_2 => cases h

theorem resolvePass_of_metLink (follow : Pos → WStr → Except NtStatus Resolved)
    (h : metLink root forCreate openLink base path = some (q, remainder)) :
    resolvePass root forCreate openLink follow base path = follow q remainder := by
  rw [metLink] at h
  rw [resolvePass]
  cases hwalk : (if forCreate then createWalk root (path.length + 1) base [] path
      else openWalk root (path.length + 1) base path) with
  | error status =>
    rw [hwalk] at h
    cases h
  | ok e =>
    rw [hwalk] at h
    cases e with
    | link p rest =>
      cases h
      rfl
    | stop p leaf =>
      simp only at h ⊢
      have hfound : (if leaf = [] then ({ parent := none, leaf := [], found := some p } : Resolved)
          else { parent := some p, leaf, found := childAt root p leaf }).found =
            if leaf = [] then some p else childAt root p leaf := by
        split <;> rfl
      rw [hfound]
      cases hc : (if leaf = [] then some p else childAt root p leaf) with
      | none =>
        rw [hc] at h
        cases h
      | some c =>
        rw [hc] at h
        simp only at h ⊢
        split at h
        case isTrue hlink =>
          cases h
          rw [if_pos hlink]
        case isFalse => cases h

theorem resolvePass_ok {follow : Pos → WStr → Except NtStatus Resolved}
    (h : resolvePass root forCreate openLink follow base path = .ok r) :
    (∃ q remainder, metLink root forCreate openLink base path = some (q, remainder) ∧
      follow q remainder = .ok r) ∨
    metLink root forCreate openLink base path = none ∧
      meet root openLink base (components path) = none ∧
      Denotes root forCreate base (components path) r := by
  rw [resolvePass] at h
  rw [metLink]
  cases hwalk : (if forCreate then createWalk root (path.length + 1) base [] path
      else openWalk root (path.length + 1) base path) with
  | error status =>
    rw [hwalk] at h
    cases h
  | ok e =>
    rw [hwalk] at h
    obtain ⟨hends, hlast⟩ := walk_components openLink hwalk
    cases e with
    | link q remainder => exact .inl ⟨q, remainder, rfl, h⟩
    | stop p leaf =>
      obtain ⟨hopen, hcreate⟩ := hlast p leaf rfl
      obtain ⟨front, hfront, hto, hmeet⟩ := hends
      rw [hmeet]
      simp only at h ⊢
      by_cases hleaf : leaf = []
      · rw [if_pos hleaf] at h hfront ⊢
        simp only at h ⊢
        split at h
        case isTrue hlink => exact .inl ⟨p, [], if_pos hlink, h⟩
        case isFalse hlink =>
          cases h
          rw [append_nil] at hfront
          refine .inr ⟨if_neg hlink, if_neg hlink, ?_⟩
          cases forCreate with
          | false => exact ⟨p, by rw [hfront]; exact hto, rfl⟩
          | true =>
            rw [hcreate rfl hleaf] at hfront ⊢
            exact ⟨p, by rw [hfront]; exact hto, rfl⟩
      · have hforCreate : forCreate = true := by
          cases forCreate with
          | false => exact absurd (hopen rfl) hleaf
          | true => rfl
        have hdenotes : Denotes root forCreate base (components path)
            { parent := some p, leaf, found := childAt root p leaf } := by
          rw [hforCreate, hfront, if_neg hleaf]
          simp only [Denotes, getLast?_concat, dropLast_concat]
          exact ⟨p, hto, rfl⟩
        rw [if_neg hleaf] at h ⊢
        simp only at h ⊢
        cases hchild : childAt root p leaf with
        | none =>
          rw [hchild] at h hdenotes
          cases h
          exact .inr ⟨rfl, rfl, hdenotes⟩
        | some c =>
          rw [hchild] at h hdenotes
          simp only at h ⊢
          split at h
          case isTrue hlink => exact .inl ⟨c, [], if_pos hlink, h⟩
          case isFalse hlink =>
            cases h
            exact .inr ⟨if_neg hlink, if_neg hlink, hdenotes⟩

/-! ## What is followed -/

/-- A link followed: the path behind it, and the path with which the walk goes on. -/
structure Follow where
  link : Pos
  remainder : WStr
  path : WStr

/-- The links that `CmpResolvePath` follows, in their order. -/
def follows (env : Env) (root : Key) (forCreate openLink : Bool) : Nat → Pos → WStr → List Follow
  | 0, _, _ => []
  | expansions + 1, base, path =>
    match metLink root forCreate openLink base path with
    | none => []
    | some (q, remainder) =>
      match (root.get? q).map fun link => cmpFollowLink env link remainder with
      | some (.ok path) =>
        { link := q, remainder, path } :: follows env root forCreate openLink expansions [] path
      | _ => []

/-- The walk goes on with the whole target and the whole path behind the link. -/
def Follow.Whole (root : Key) (f : Follow) : Prop :=
  ∃ link target, root.get? f.link = some link ∧ linkTarget link = some target ∧
    f.path = composePath target f.remainder

/-- No link on the way has a value of 64 KiB or composes a path of 64 KiB. -/
def Short (root : Key) (forCreate openLink : Bool) : Nat → Pos → WStr → Prop
  | 0, _, _ => True
  | expansions + 1, base, path =>
    ∀ q remainder link value, metLink root forCreate openLink base path = some (q, remainder) →
      root.get? q = some link → cmpFindValue link symbolicLinkValue = some value →
      value.data.length < 65536 ∧ ∀ target, linkTarget link = some target →
        2 * (composePath target remainder).length < 65536 ∧
        Short root forCreate openLink expansions [] (composePath target remainder)

/-- Links are substituted: `r` is what is denoted once at most `n` links were replaced and none is
left. -/
def Substituted (root : Key) (forCreate openLink : Bool) (n : Nat) (p : Pos) (names : List WStr)
    (r : Resolved) : Prop :=
  ∃ k p' names', k ≤ n ∧ Substitutes root openLink k p names p' names' ∧
    meet root openLink p' names' = none ∧ Denotes root forCreate p' names' r

theorem length_toUnits (b : List UInt8) : (toUnits b).length = b.length / 2 := by
  fun_induction toUnits b with
  | case1 a c rest ih => rw [length_cons, ih, length_cons, length_cons]; omega
  | case2 b h =>
    match b with
    | [] => rfl
    | [_] => simp
    | a :: c :: rest => exact absurd rfl (h a c rest)

variable (env root forCreate openLink) in
theorem length_follows_le (n : Nat) (base : Pos) (path : WStr) :
    (follows env root forCreate openLink n base path).length ≤ n := by
  induction n generalizing base path with
  | zero => exact Nat.le_refl 0
  | succ n ih =>
    rw [follows]
    split
    · exact Nat.zero_le _
    · split
      · rw [length_cons]
        exact Nat.succ_le_succ (ih _ _)
      · exact Nat.zero_le _

/-- A link that is followed: with a value below 64 KiB the target is whole and only the composed
path may be cut, with a longer one some of the target is missing. -/
theorem cmpFollowLink_ok (h : cmpFollowLink env link remainder = .ok path) :
    ∃ value, cmpFindValue link symbolicLinkValue = some value ∧
      (value.data.length < 65536 → ∃ target, linkTarget link = some target ∧
        path = (composePath target remainder).take
          ((composePath target remainder).length % 32768)) ∧
      (65536 ≤ value.data.length → ∀ target, linkTarget link = some target →
        path.length < (composePath target remainder).length) := by
  rw [cmpFollowLink] at h
  cases hvalue : cmpFindValue link symbolicLinkValue with
  | none =>
    rw [hvalue] at h
    cases h
  | some value =>
    rw [hvalue] at h
    refine ⟨value, rfl, ?_⟩
    simp only at h
    rw [linkTarget, hvalue, bind_some]
    have hunits : (toUnits (value.data.take (2 * (value.data.length / 2)))).length =
        value.data.length / 2 := by
      rw [length_toUnits, length_take]
      omega
    generalize toUnits (value.data.take (2 * (value.data.length / 2))) = units at h hunits ⊢
    split at h
    case isTrue => cases h
    case isFalse hlong =>
      split at h
      case isTrue => cases h
      case isFalse hhead =>
        split at h
        case isTrue => cases h
        case isFalse hprefix =>
          split at h
          case isTrue => cases h
          case isFalse =>
            simp only [not_or, Classical.not_not, not_and] at hprefix hhead
            constructor
            · intro hdata
              have hall : units.take (units.length % 32768) = units := by
                rw [Nat.mod_eq_of_lt (by omega), take_length]
              rw [hall] at h hprefix
              refine ⟨_, if_pos ⟨hhead, hprefix.1, hprefix.2⟩, ?_⟩
              cases h
              rfl
            · intro hdata target htarget
              have hcut := Nat.mod_lt units.length (show 32768 > 0 by decide)
              simp only at htarget
              split at htarget
              case isTrue =>
                cases htarget
                cases h
                have htail : registryPrefix.length = 9 := rfl
                simp only [composePath, length_take, length_append, length_drop]
                omega
              case isFalse => cases htarget

theorem cmpFollowLink_whole (hget : root.get? q = some link)
    (h : cmpFollowLink env link remainder = .ok path) :
    ({ link := q, remainder, path } : Follow).Whole root ↔
      ∃ value target, cmpFindValue link symbolicLinkValue = some value ∧
        value.data.length < 65536 ∧ linkTarget link = some target ∧
        2 * (composePath target remainder).length < 65536 ∧
        path = composePath target remainder := by
  obtain ⟨value, hvalue, hshort, hlong⟩ := cmpFollowLink_ok h
  constructor
  · intro ⟨link', target, hget', htarget, hpath⟩
    simp only at hget' hpath
    rw [hget] at hget'
    cases hget'
    have hdata : value.data.length < 65536 := by
      apply Nat.lt_of_not_le
      intro hle
      have hless := hlong hle target htarget
      rw [hpath] at hless
      exact Nat.lt_irrefl _ hless
    obtain ⟨target', htarget', hcut⟩ := hshort hdata
    rw [htarget] at htarget'
    cases htarget'
    have hlength : 2 * (composePath target remainder).length < 65536 := by
      have heq := congrArg List.length (hpath.symm.trans hcut)
      rw [length_take] at heq
      have hmod := Nat.mod_lt (composePath target remainder).length (show 32768 > 0 by decide)
      omega
    exact ⟨value, target, hvalue, hdata, htarget, hlength, hpath⟩
  · intro ⟨_, target, _, _, htarget, _, hpath⟩
    exact ⟨link, target, hget, htarget, hpath⟩

/-- The passes of a resolution that succeeds: each but the last ends at a link, which is
followed. -/
inductive Passes (env : Env) (root : Key) (forCreate openLink : Bool) :
    Pos → WStr → List Follow → Resolved → Prop
  | last {base : Pos} {path : WStr} {r : Resolved} :
    metLink root forCreate openLink base path = none →
    meet root openLink base (components path) = none →
    Denotes root forCreate base (components path) r →
    Passes env root forCreate openLink base path [] r
  | follow {base q : Pos} {path remainder next : WStr} {link : Key} {fs : List Follow}
      {r : Resolved} :
    metLink root forCreate openLink base path = some (q, remainder) →
    root.get? q = some link → cmpFollowLink env link remainder = .ok next →
    Passes env root forCreate openLink [] next fs r →
    Passes env root forCreate openLink base path
      ({ link := q, remainder, path := next } :: fs) r

/-- A resolution that succeeds makes the passes it says it makes. -/
theorem resolveFrom_passes (h : resolveFrom env root forCreate openLink n base path = .ok r) :
    Passes env root forCreate openLink base path
      (follows env root forCreate openLink n base path) r := by
  induction n generalizing base path with
  | zero =>
    rw [resolveFrom] at h
    obtain ⟨_, _, _, hfollow⟩ | ⟨hmet, hmeet, hdenotes⟩ := resolvePass_ok h
    · cases hfollow
    · exact .last hmet hmeet hdenotes
  | succ n ih =>
    rw [resolveFrom] at h
    obtain ⟨q, remainder, hmet, hfollow⟩ | ⟨hmet, hmeet, hdenotes⟩ := resolvePass_ok h
    · cases hget : root.get? q with
      | none =>
        rw [hget] at hfollow
        cases hfollow
      | some link =>
        rw [hget] at hfollow
        simp only at hfollow
        cases hnext : cmpFollowLink env link remainder with
        | error status =>
          rw [hnext] at hfollow
          cases hfollow
        | ok next =>
          rw [hnext] at hfollow
          rw [follows, hmet]
          simp only [hget, map_some, hnext]
          exact .follow hmet hget hnext (ih hfollow)
    · rw [follows, hmet]
      exact .last hmet hmeet hdenotes

theorem substituted_succ_iff {rest : List WStr} {names : List WStr}
    (hmeet : meet root openLink p names = some (q, rest))
    (hget : root.get? q = some link) (htarget : linkTarget link = some target) :
    Substituted root forCreate openLink (n + 1) p names r ↔
      Substituted root forCreate openLink n [] (components target ++ rest) r := by
  constructor
  · intro ⟨k, p', names', hk, hsub, hnone, hdenotes⟩
    cases hsub with
    | refl =>
      rw [hmeet] at hnone
      cases hnone
    | step hmeet' hget' htarget' hsub =>
      rw [hmeet] at hmeet'
      cases hmeet'
      rw [hget] at hget'
      cases hget'
      rw [htarget] at htarget'
      cases htarget'
      exact ⟨_, p', names', Nat.le_of_succ_le_succ hk, hsub, hnone, hdenotes⟩
  · intro ⟨k, p', names', hk, hsub, hnone, hdenotes⟩
    exact ⟨k + 1, p', names', Nat.succ_le_succ hk, .step hmeet hget htarget hsub, hnone, hdenotes⟩

theorem short_succ_iff {value : Value}
    (hmet : metLink root forCreate openLink base path = some (q, remainder))
    (hget : root.get? q = some link)
    (hvalue : cmpFindValue link symbolicLinkValue = some value) :
    Short root forCreate openLink (n + 1) base path ↔
      value.data.length < 65536 ∧ ∀ target, linkTarget link = some target →
        2 * (composePath target remainder).length < 65536 ∧
        Short root forCreate openLink n [] (composePath target remainder) := by
  constructor
  · intro h
    exact h q remainder link value hmet hget hvalue
  · intro h q' remainder' link' value' hmet' hget' hvalue'
    rw [hmet] at hmet'
    cases hmet'
    rw [hget] at hget'
    cases hget'
    rw [hvalue] at hvalue'
    cases hvalue'
    exact h

/-- The passes are the substitution, with nothing cut, exactly when the links on the way are
short. -/
theorem Passes.substituted_iff {fs : List Follow}
    (h : Passes env root forCreate openLink base path fs r) (hn : fs.length ≤ n) :
    ((∀ f ∈ fs, f.Whole root) ∧
      Substituted root forCreate openLink n base (components path) r) ↔
    Short root forCreate openLink n base path := by
  induction h generalizing n with
  | last hmet hmeet hdenotes =>
    refine iff_of_true ⟨nofun, 0, _, _, Nat.zero_le n, .refl, hmeet, hdenotes⟩ ?_
    cases n with
    | zero => trivial
    | succ n =>
      intro q remainder link value hmet'
      rw [hmet] at hmet'
      cases hmet'
  | follow hmet hget hnext _ ih =>
    cases n with
    | zero => exact absurd hn (Nat.not_succ_le_zero _)
    | succ n =>
      have ih := ih (Nat.le_of_succ_le_succ hn)
      have hmeet := meet_of_metLink hmet
      have hwhole := cmpFollowLink_whole hget hnext
      constructor
      · intro ⟨hall, hsub⟩
        obtain ⟨value, target, hvalue, hdata, htarget, hlength, hpath⟩ :=
          hwhole.mp (hall _ (mem_cons_self ..))
        rw [substituted_succ_iff hmeet hget htarget, ← components_composePath, ← hpath] at hsub
        have hshort := ih.mp ⟨fun f hf => hall f (mem_cons_of_mem _ hf), hsub⟩
        rw [short_succ_iff hmet hget hvalue]
        refine ⟨hdata, fun target' htarget' => ?_⟩
        rw [htarget] at htarget'
        cases htarget'
        exact ⟨hlength, hpath ▸ hshort⟩
      · intro hshort
        obtain ⟨value, hvalue, hcut, _⟩ := cmpFollowLink_ok hnext
        rw [short_succ_iff hmet hget hvalue] at hshort
        obtain ⟨target, htarget, hpath⟩ := hcut hshort.1
        obtain ⟨hlength, hrest⟩ := hshort.2 target htarget
        rw [Nat.mod_eq_of_lt (by omega), take_length] at hpath
        rw [← hpath] at hrest
        obtain ⟨hall, hsub⟩ := ih.mpr hrest
        rw [hpath, components_composePath] at hsub
        refine ⟨?_, (substituted_succ_iff hmeet hget htarget).mpr hsub⟩
        intro f hf
        cases hf with
        | head => exact ⟨_, target, hget, htarget, hpath⟩
        | tail _ hf => exact hall f hf

/-! ## `CmpResolvePath` -/

def KeyPath.walkBase : KeyPath → Pos
  | .absolute _ | .relative .deleted _ => []
  | .relative (.key p) _ => p

def KeyPath.walkPath : KeyPath → WStr
  | .absolute rest => rest
  | .relative _ path => path

theorem cmpResolvePath_ok {path : KeyPath}
    (h : cmpResolvePath env root path forCreate openLink = .ok r) :
    resolveFrom env root forCreate openLink cmpMaxLinkExpansions path.walkBase path.walkPath =
      .ok r := by
  cases path with
  | absolute rest => exact h
  | relative handle path =>
    cases handle with
    | deleted => cases h
    | key p =>
      rw [cmpResolvePath] at h
      split at h
      · cases h
      · split at h
        · cases h
        · exact h

/-- At most 32 links are followed. A resolution that succeeds is the substitution of the links on
its way, by their whole targets and with the whole path behind each, exactly when none of them is
cut. -/
theorem cmpResolvePath_substitutes_iff (env : Env) (root : Key) (path : KeyPath)
    (forCreate openLink : Bool) :
    (follows env root forCreate openLink cmpMaxLinkExpansions path.walkBase
      path.walkPath).length ≤ 32 ∧
    ∀ r, cmpResolvePath env root path forCreate openLink = .ok r →
      Passes env root forCreate openLink path.walkBase path.walkPath
        (follows env root forCreate openLink cmpMaxLinkExpansions path.walkBase path.walkPath) r ∧
      (((∀ f ∈ follows env root forCreate openLink cmpMaxLinkExpansions path.walkBase path.walkPath,
          f.Whole root) ∧
        Substituted root forCreate openLink 32 path.walkBase (components path.walkPath) r) ↔
      Short root forCreate openLink 32 path.walkBase path.walkPath) := by
  have hlength := length_follows_le env root forCreate openLink cmpMaxLinkExpansions path.walkBase
    path.walkPath
  refine ⟨hlength, fun r h => ?_⟩
  have hpasses := resolveFrom_passes (cmpResolvePath_ok h)
  exact ⟨hpasses, hpasses.substituted_iff hlength⟩

def linkKey (data : List UInt8) : Key :=
  { newNode 0 [0x41] with
    values := [{ name := symbolicLinkValue, type := 6, data }], isLink := true }

def linkedRoot (data : List UInt8) : Key :=
  { newNode 0 [] with
    subkeys := [linkKey data, { newNode 0 [0x42] with subkeys := [newNode 0 [0x43]] }] }

deriving instance DecidableEq for Resolved

/-- With "A" naming `\Registry\B`, the path `A\C` is that of `B\C`. -/
theorem cmpResolvePath_substitutes_at_link :
    let root := linkedRoot (ofUnits (registryPrefix ++ [backslash, 0x42]))
    let path : WStr := [0x41, backslash, 0x43]
    cmpResolvePath {} root (.absolute path) false false =
        .ok { parent := none, leaf := [], found := some [1, 0] } ∧
      (((∀ f ∈ follows {} root false false cmpMaxLinkExpansions [] path, f.Whole root) ∧
        Substituted root false false 32 [] (components path)
          { parent := none, leaf := [], found := some [1, 0] }) ↔
      Short root false false 32 [] path) :=
  ⟨by decide +kernel, ((cmpResolvePath_substitutes_iff {} (linkedRoot _)
    (.absolute [0x41, backslash, 0x43]) false false).2 _ (by decide +kernel)).2⟩

theorem cmpFindValue_linkKey (data : List UInt8) :
    cmpFindValue (linkKey data) symbolicLinkValue =
      some { name := symbolicLinkValue, type := 6, data } :=
  find?_cons_of_pos (rtlEqualUnicodeString_self symbolicLinkValue)

theorem toUnits_linkKey (s : WStr) :
    toUnits ((ofUnits s).take (2 * ((ofUnits s).length / 2))) = s := by
  rw [take_of_length_le (by rw [length_ofUnits]; omega), toUnits_ofUnits]

/-- A target of 64 KiB and as much more as `\Registry` has is taken for `\Registry`. -/
theorem cmpFollowLink_cut (tail : WStr) (htail : tail.length = 32767) :
    cmpFollowLink {} (linkKey (ofUnits (registryPrefix ++ backslash :: tail))) [] = .ok [] := by
  have hlength : ¬ (ofUnits (registryPrefix ++ backslash :: tail)).length < 2 := by
    rw [length_ofUnits, length_append, length_cons, htail]
    decide
  have hunits : (registryPrefix ++ backslash :: tail).length % 32768 = registryPrefix.length := by
    rw [length_append, length_cons, htail]
    rfl
  rw [cmpFollowLink, cmpFindValue_linkKey]
  simp only
  rw [if_neg hlength, toUnits_linkKey, hunits, take_left, if_neg (by simp [registryPrefix,
    backslash]), if_neg ?_, if_neg (by simp), drop_length]
  · rfl
  · rw [take_length, rtlEqualUnicodeString_self]
    simp

theorem linkTarget_linkKey (tail : WStr) :
    linkTarget (linkKey (ofUnits (registryPrefix ++ backslash :: tail))) =
      some (backslash :: tail) := by
  rw [linkTarget, cmpFindValue_linkKey, bind_some]
  simp only
  rw [toUnits_linkKey, take_left, drop_left]
  exact if_pos ⟨rfl, rtlEqualUnicodeString_self _, fun _ => rfl⟩

def longName : WStr := List.replicate 32767 0x78

theorem components_longName : components longName = [longName] := by
  apply components_single
  · exact cons_ne_nil _ _
  · intro hmem
    exact absurd (eq_of_mem_replicate hmem) (by decide)

theorem childAt_linkedRoot_longName (data : List UInt8) :
    childAt (linkedRoot data) [] longName = none := by
  have hname (a : UInt16) : rtlEqualUnicodeString [a] longName = false := by
    change rtlEqualUnicodeString [a] (0x78 :: 0x78 :: List.replicate 32765 0x78) = false
    rw [rtlEqualUnicodeString, rtlEqualUnicodeString, Bool.and_false] <;> intros <;> contradiction
  rw [childAt, Key.get?, bind_some, cmpFindSubkey, map_eq_none_iff,
    findIdx?_eq_none_iff]
  intro c hc
  cases hc with
  | head => exact hname 0x41
  | tail _ hc =>
    cases mem_singleton.mp hc
    exact hname 0x42

theorem metLink_linkedRoot (data : List UInt8) :
    metLink (linkedRoot data) false false [] [0x41] = some ([0], []) := by
  have hchild : childAt (linkedRoot data) [] [0x41] = some [0] := by
    rw [childAt, Key.get?, bind_some, cmpFindSubkey, linkedRoot, findIdx?_cons,
      linkKey, newNode]
    simp only
    rw [rtlEqualUnicodeString_self]
    rfl
  have hnext : cmpNextComponent [0x41] = some ([0x41], []) := by decide
  have hwalk : openWalk (linkedRoot data) 2 [] [0x41] = .ok (.stop [0] []) := by
    rw [openWalk, hnext]
    simp only [hchild]
    rfl
  rw [metLink]
  simp only [length_singleton, Nat.reduceAdd, hwalk, Bool.false_eq_true, if_false]
  rfl

/-- With "A" naming a path of 65554 bytes below `\Registry`, the name "A" opens the root. -/
theorem cmpResolvePath_cuts_long_target :
    let root := linkedRoot (ofUnits (registryPrefix ++ backslash :: longName))
    let r : Resolved := { parent := none, leaf := [], found := some [] }
    cmpResolvePath {} root (.absolute [0x41]) false false = .ok r ∧
      ¬ (∀ f ∈ follows {} root false false cmpMaxLinkExpansions [] [0x41], f.Whole root) ∧
      ¬ Substituted root false false 32 [] (components [0x41]) r := by
  have hcut := cmpFollowLink_cut longName length_replicate
  have htarget := linkTarget_linkKey longName
  have hchild := childAt_linkedRoot_longName (ofUnits (registryPrefix ++ backslash :: longName))
  generalize ofUnits (registryPrefix ++ backslash :: longName) = data at *
  have hget : (linkedRoot data).get? [0] = some (linkKey data) := rfl
  have hmet : metLink (linkedRoot data) false false [] [0x41] = some ([0], []) :=
    metLink_linkedRoot data
  refine ⟨?_, fun hall => ?_, fun hsub => ?_⟩
  · rw [cmpResolvePath, cmpMaxLinkExpansions, resolveFrom, resolvePass_of_metLink _ hmet, hget]
    simp only [hcut]
    rw [resolveFrom]
    rfl
  · have hfirst : ({ link := [0], remainder := [], path := [] } : Follow) ∈
        follows {} (linkedRoot data) false false cmpMaxLinkExpansions [] [0x41] := by
      rw [cmpMaxLinkExpansions, follows, hmet]
      simp only [hget, map_some, hcut]
      exact mem_cons_self ..
    obtain ⟨link, target, hget', htarget', hpath⟩ := hall _ hfirst
    rw [hget] at hget'
    cases hget'
    rw [htarget] at htarget'
    cases htarget'
    cases hpath
  · rw [substituted_succ_iff (meet_of_metLink hmet) hget htarget, components_sep,
      components_longName] at hsub
    obtain ⟨k, p', names', _, hsub, _, q, hwalk, _⟩ := hsub
    cases hsub with
    | refl =>
      rw [components_nil, append_nil, walkTo, hchild] at hwalk
      cases hwalk
    | step hmeet =>
      rw [components_nil, append_nil, meet, hchild] at hmeet
      cases hmeet

end

end Proskrnl.Cm
