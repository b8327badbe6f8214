import Proskrnl.Library.Allocations
import Proskrnl.Library.Census
import Proskrnl.Npfs.Members
import Proskrnl.Npfs.Namespace

/-!
# The lifetimes of pipes, instances and ends

What holds of every namespace that a run comes to (`NamespaceInv`): the counts agree with the ends that
hold a pipe and with the instances that have a server end, a pipe has its name as long as it has an
instance, and what was allocated is live or was freed once.
-/

namespace Proskrnl.Npfs
open MessageQueue Outcome Census Allocations List Option
open Function (update update_apply update_eq_self update_idem update_of_ne update_self)

def Placed.holding (x : Placed) (e : EndId) : Option Nat :=
  if e ∈ x.body.openEnds ∧ (x.body.ends e).pipe = true then some (x.pipe e) else none

def Placed.serving (x : Placed) : Option Nat := if x.body.serverEnd then some (x.pipe .server) else none

namespace Namespace

def holding (s : Namespace) (k : Nat × EndId) : Option Nat := (s.instances k.1).bind (·.holding k.2)

def serving (s : Namespace) (i : Nat) : Option Nat := (s.instances i).bind Placed.serving

def Live (s : Namespace) : Resource → Prop
  | .pipe p => s.pipes p ≠ none
  | .placed i => s.instances i ≠ none
  | .fileEnd i e => ∃ x, s.instances i = some x ∧ e ∈ x.body.openEnds

def Known (s : Namespace) : Resource → Prop
  | .pipe p => p < s.nextPipe
  | .placed i => i < s.nextInstance
  | .fileEnd i e => i < s.nextInstance ∧
    ∀ x n, s.instances i = some x → e = .client n → n ≤ x.body.connection

end Namespace

def nameKey (a : PipeName) : Nat × List Nat := (a.length, foldUnits (Bytes.toUnits a))

theorem equalNames_iff {a b : PipeName} : equalNames a b = true ↔ nameKey a = nameKey b := by
  simp [equalNames, nameKey, rtlEqualUnicodeString_iff]

/-! ## Pipes -/

structure PipeInv (holding : Nat × EndId → Option Nat) (serving : Nat → Option Nat)
    (pipeList : List Nat) (p : Nat) (pipe : Pipe) : Prop where
  references : Counted holding p pipe.refCount
  referenced : pipe.refCount ≠ 0
  nodup : pipe.instanceList.Nodup
  members : ∀ i, i ∈ pipe.instanceList ↔ serving i = some p
  count : pipe.instanceCount = pipe.instanceList.length
  bounded : pipe.instanceCount ≤ pipe.maxInstances.toNat
  name : pipe.name = if pipe.instanceCount = 0 then [] else pipe.created
  listed : p ∈ pipeList ↔ pipe.name ≠ []

def Distinct (pipes : Nat → Option Pipe) (pipeList : List Nat) : Prop :=
  ∀ p ∈ pipeList, ∀ q ∈ pipeList, ∀ a b, pipes p = some a → pipes q = some b →
    equalNames a.name b.name = true → p = q

theorem Distinct.mono {pipes pipes' : Nat → Option Pipe} {pipeList pipeList' : List Nat}
    (h : Distinct pipes pipeList) (hsub : pipeList' ⊆ pipeList)
    (hname : ∀ p ∈ pipeList', ∀ a, pipes' p = some a → ∃ a', pipes p = some a' ∧ a'.name = a.name) :
    Distinct pipes' pipeList' := by
  intro p hp q hq a b ha hb heq
  obtain ⟨a', ha', hname1⟩ := hname p hp a ha
  obtain ⟨b', hb', hname2⟩ := hname q hq b hb
  rw [← hname1, ← hname2] at heq
  exact h p (hsub hp) q (hsub hq) a' b' ha' hb' heq

structure PipesInv (holding : Nat × EndId → Option Nat) (serving : Nat → Option Nat)
    (pipes : Nat → Option Pipe) (pipeList : List Nat) : Prop where
  nodup : pipeList.Nodup
  live : ∀ p ∈ pipeList, pipes p ≠ none
  distinct : Distinct pipes pipeList
  held : ∀ k p, holding k = some p → pipes p ≠ none
  served : ∀ i p, serving i = some p → holding (i, .server) = some p
  pipe : ∀ p pipe, pipes p = some pipe → PipeInv holding serving pipeList p pipe

section
variable {holding holding' : Nat × EndId → Option Nat} {serving serving' : Nat → Option Nat}
  {pipes : Nat → Option Pipe} {pipeList pipeList' : List Nat} {p q i : Nat} {pipe : Pipe}
  {k : Nat × EndId}

theorem PipeInv.congr (h : PipeInv holding serving pipeList q pipe)
    (hholding : ∀ k, holding' k = some q ↔ holding k = some q)
    (hserving : ∀ i, serving' i = some q ↔ serving i = some q) (hlist : q ∈ pipeList' ↔ q ∈ pipeList) :
    PipeInv holding' serving' pipeList' q pipe where
  references := h.references.congr hholding
  referenced := h.referenced
  nodup := h.nodup
  members i := by rw [h.members, hserving]
  count := h.count
  bounded := h.bounded
  name := h.name
  listed := by rw [hlist, h.listed]

theorem PipeInv.name_ne (h : PipeInv holding serving pipeList p pipe) :
    pipe.name ≠ [] ↔ pipe.created ≠ [] ∧ pipe.instanceCount ≠ 0 := by
  rw [h.name]
  split
  case isTrue hzero => simp [hzero]
  case isFalse hcount => simp [hcount]

theorem Distinct.update {a : Pipe} (h : Distinct pipes pipeList) (hsub : pipeList' ⊆ pipeList)
    (hp : pipes p = some pipe) (ha : p ∈ pipeList' → a.name = pipe.name) :
    Distinct (update pipes p (some a)) pipeList' := by
  refine h.mono hsub fun q hq b hb => ?_
  rw [update_apply] at hb
  split at hb
  · rename_i hqp
    subst hqp
    cases hb
    exact ⟨pipe, hp, (ha hq).symm⟩
  · exact ⟨b, hb, rfl⟩

/-- The places of a map that hold another pipe are the same. -/
def SameElsewhere {κ : Type} (p : Nat) (f f' : κ → Option Nat) : Prop :=
  ∀ q, q ≠ p → ∀ k, f' k = some q ↔ f k = some q

theorem SameElsewhere.refl {κ : Type} (f : κ → Option Nat) : SameElsewhere p f f := fun _ _ _ => Iff.rfl

theorem SameElsewhere.update {κ : Type} [DecidableEq κ] {f : κ → Option Nat} {k : κ} {v : Option Nat}
    (hk : ∀ q, f k = some q → q = p) (hv : ∀ q, v = some q → q = p) :
    SameElsewhere p f (update f k v) := by
  intro q hqp j
  rw [update_apply]
  split
  case isTrue hj => exact iff_of_false (fun h => hqp (hv q h)) fun h => hqp (hk q (hj ▸ h))
  case isFalse => rfl

/-- One pipe changes, and its holders, its instances and its place in the list with it. -/
theorem PipesInv.changed {v : Option Pipe} (h : PipesInv holding serving pipes pipeList)
    (hholding : SameElsewhere p holding holding') (hserving : SameElsewhere p serving serving')
    (hnodup : pipeList'.Nodup) (hlist : ∀ q, q ≠ p → (q ∈ pipeList' ↔ q ∈ pipeList))
    (hdistinct : Distinct (update pipes p v) pipeList')
    (hgone : v = none → p ∉ pipeList' ∧ ∀ k, holding' k ≠ some p)
    (hserved : ∀ i, serving' i = some p → holding' (i, .server) = some p)
    (hself : ∀ a, v = some a → PipeInv holding' serving' pipeList' p a) :
    PipesInv holding' serving' (update pipes p v) pipeList' where
  nodup := hnodup
  live q hq := by
    by_cases hqp : q = p
    · subst hqp
      rw [update_self]
      exact fun hv => (hgone hv).1 hq
    · rw [update_of_ne hqp]
      exact h.live q ((hlist q hqp).mp hq)
  distinct := hdistinct
  held k q hq := by
    by_cases hqp : q = p
    · subst hqp
      rw [update_self]
      exact fun hv => (hgone hv).2 k hq
    · rw [update_of_ne hqp]
      exact h.held k q ((hholding q hqp k).mp hq)
  served i q hq := by
    by_cases hqp : q = p
    · subst hqp
      exact hserved i hq
    · exact (hholding q hqp _).mpr (h.served i q ((hserving q hqp i).mp hq))
  pipe q a ha := by
    by_cases hqp : q = p
    · subst hqp
      rw [update_self] at ha
      exact hself a ha
    · rw [update_of_ne hqp] at ha
      exact (h.pipe q a ha).congr (hholding q hqp) (hserving q hqp) (hlist q hqp)

section
variable (h : PipesInv holding serving pipes pipeList)
include h

theorem PipesInv.hold (hp : pipes p = some pipe) (hk : holding k = none) :
    PipesInv (update holding k (some p)) serving
      (update pipes p (some { pipe with refCount := pipe.refCount + 1 })) pipeList := by
  have hpipe := h.pipe p pipe hp
  refine h.changed (.update (by rw [hk]; nofun) fun q hq => (some.inj hq).symm) (.refl _) h.nodup
    (fun _ _ => Iff.rfl) (h.distinct.update (Subset.refl _) hp fun _ => rfl) nofun (fun i hi => ?_)
    fun a ha => ?_
  · rw [update_apply]
    split
    · rfl
    · exact h.served i p hi
  · cases ha
    exact { hpipe with
      references := hpipe.references.fill hk
      referenced := Nat.succ_ne_zero _ }

theorem PipesInv.served_clear
    (hserver : ∀ i, k = (i, .server) → serving i = none) (hi : serving i = some q) :
    update holding k none (i, .server) = some q := by
  rw [update_of_ne, h.served i q hi]
  rintro rfl
  rw [hserver i rfl] at hi
  cases hi

theorem PipesInv.last (hk : holding k = some p)
    (hserver : ∀ i, k = (i, .server) → serving i = none) (hp : pipes p = some pipe)
    (hone : pipe.refCount = 1) : pipe.instanceCount = 0 := by
  have hpipe := h.pipe p pipe hp
  have hnone := hpipe.references.clear hk
  rw [hone] at hnone
  rw [hpipe.count, length_eq_zero_iff]
  refine eq_nil_iff_forall_not_mem.mpr fun i hi => ?_
  exact hnone.ne_of_zero (h.served_clear hserver ((hpipe.members i).mp hi))

theorem PipesInv.release (hk : holding k = some p)
    (hserver : ∀ i, k = (i, .server) → serving i = none) (hp : pipes p = some pipe) :
    if pipe.refCount = 1 then
      PipesInv (update holding k none) serving (update pipes p none)
        (pipeList.erase p)
    else PipesInv (update holding k none) serving
      (update pipes p (some { pipe with refCount := pipe.refCount - 1 })) pipeList := by
  have hpipe := h.pipe p pipe hp
  have hclear := hpipe.references.clear hk
  have hother : SameElsewhere p holding (update holding k none) := by
    refine .update (fun q hq => ?_) nofun
    rw [hk] at hq
    exact (some.inj hq).symm
  split
  · rename_i hone
    have hcount := h.last hk hserver hp hone
    have hnot : p ∉ pipeList := by
      rw [hpipe.listed, hpipe.name_ne]
      exact fun h => h.2 hcount
    rw [hone] at hclear
    rw [erase_of_not_mem hnot]
    refine h.changed hother (.refl _) h.nodup (fun _ _ => Iff.rfl)
      (h.distinct.mono (Subset.refl _) fun q hq a ha => ?_) (fun _ => ⟨hnot, fun _ => hclear.ne_of_zero⟩)
      (fun i hi => h.served_clear hserver hi) nofun
    rw [update_apply] at ha
    split at ha
    · cases ha
    · exact ⟨a, ha, rfl⟩
  · rename_i hmore
    refine h.changed hother (.refl _) h.nodup (fun _ _ => Iff.rfl)
      (h.distinct.update (Subset.refl _) hp fun _ => rfl) nofun
      (fun i hi => h.served_clear hserver hi) fun a ha => ?_
    cases ha
    refine { hpipe with
      references := hclear
      referenced := ?_ }
    have := hpipe.referenced
    show pipe.refCount - 1 ≠ 0
    omega

end

def Pipe.left (pipe : Pipe) (i : Nat) : Pipe :=
  { pipe with
    instanceList := pipe.instanceList.erase i
    instanceCount := pipe.instanceCount - 1
    name := if pipe.instanceCount - 1 = 0 then [] else pipe.name }

theorem PipesInv.leave (h : PipesInv holding serving pipes pipeList) (hi : serving i = some p)
    (hp : pipes p = some pipe) : pipe.instanceCount ≠ 0 ∧
    PipesInv holding (update serving i none) (update pipes p (some (pipe.left i)))
      (if pipe.instanceCount - 1 = 0 then pipeList.erase p else pipeList) := by
  have hpipe := h.pipe p pipe hp
  have hmem : i ∈ pipe.instanceList := (hpipe.members i).mpr hi
  have hlength : (pipe.instanceList.erase i).length = pipe.instanceCount - 1 := by
    rw [length_erase_of_mem hmem, hpipe.count]
  have hpos : pipe.instanceCount ≠ 0 := by
    rw [hpipe.count]
    exact (length_pos_of_mem hmem).ne'
  have hsub : (if pipe.instanceCount - 1 = 0 then pipeList.erase p else pipeList) ⊆ pipeList := by
    split
    · exact erase_subset
    · exact Subset.refl _
  refine ⟨hpos, h.changed (.refl _) (.update (fun q hq => ?_) nofun) ?_ (fun q hqp => ?_)
    (h.distinct.update hsub hp fun hin => ?_) nofun (fun j hj => ?_) fun a ha => ?_⟩
  · rw [hi] at hq
    exact (some.inj hq).symm
  · split
    · exact h.nodup.erase _
    · exact h.nodup
  · split
    · rw [mem_erase_of_ne hqp]
    · rfl
  · split at hin
    · exact absurd hin h.nodup.not_mem_erase
    · rename_i hmore
      exact if_neg hmore
  · rw [update_apply] at hj
    split at hj
    · cases hj
    · exact h.served j p hj
  · cases ha
    refine ⟨hpipe.references, hpipe.referenced, hpipe.nodup.erase _, fun j => ?_, hlength.symm,
      (Nat.sub_le _ _).trans hpipe.bounded, ?_, ?_⟩
    · show j ∈ pipe.instanceList.erase i ↔ _
      rw [hpipe.nodup.mem_erase_iff, hpipe.members, update_apply]
      split
      · rename_i hj
        exact iff_of_false (fun h => h.1 hj) nofun
      · rename_i hj
        exact and_iff_right hj
    · show (if pipe.instanceCount - 1 = 0 then [] else pipe.name) = _
      rw [hpipe.name, if_neg hpos]
      rfl
    · show _ ↔ (if pipe.instanceCount - 1 = 0 then [] else pipe.name) ≠ []
      split
      · exact iff_of_false h.nodup.not_mem_erase (not_not.mpr rfl)
      · exact hpipe.listed

def Pipe.entered (pipe : Pipe) (i : Nat) : Pipe :=
  { pipe with
    refCount := pipe.refCount + 1
    instanceList := pipe.instanceList ++ [i]
    instanceCount := pipe.instanceCount + 1 }

section
variable (h : PipesInv holding serving pipes pipeList)
include h

/-- A pipe gets an instance, and the server end of the instance holds it. -/
theorem PipesInv.entered {a : Pipe} (hk : holding (i, .server) = none) (hi : serving i = none)
    (hnodup : pipeList'.Nodup) (hlist : ∀ q, q ≠ p → (q ∈ pipeList' ↔ q ∈ pipeList))
    (hdistinct : Distinct (update pipes p (some a)) pipeList')
    (hself : PipeInv (update holding (i, .server) (some p)) (update serving i (some p)) pipeList' p a) :
    PipesInv (update holding (i, .server) (some p)) (update serving i (some p)) (update pipes p (some a))
      pipeList' := by
  refine h.changed (.update (by rw [hk]; nofun) fun q hq => (some.inj hq).symm)
    (.update (by rw [hi]; nofun) fun q hq => (some.inj hq).symm) hnodup hlist hdistinct nofun
    (fun j hj => ?_) fun b hb => by cases hb; exact hself
  by_cases hji : j = i
  · rw [hji, update_self]
  · rw [update_of_ne hji] at hj
    rw [update_of_ne (by simpa using hji)]
    exact h.served j p hj

theorem PipesInv.enter (hp : pipes p = some pipe)
    (hk : holding (i, .server) = none) (hi : serving i = none) (hcount : pipe.instanceCount ≠ 0)
    (hroom : pipe.instanceCount < pipe.maxInstances.toNat) :
    PipesInv (update holding (i, .server) (some p)) (update serving i (some p))
      (update pipes p (some (pipe.entered i))) pipeList := by
  have hpipe := h.pipe p pipe hp
  have hnot : i ∉ pipe.instanceList := by
    rw [hpipe.members, hi]
    nofun
  refine h.entered hk hi h.nodup (fun _ _ => Iff.rfl)
    (h.distinct.update (Subset.refl _) hp fun _ => rfl)
    ⟨hpipe.references.fill hk, Nat.succ_ne_zero _,
      nodup_append.mpr ⟨hpipe.nodup, nodup_singleton _, ?_⟩, fun j => ?_, ?_, hroom, ?_, hpipe.listed⟩
  · rintro j hj _ hi' rfl
    obtain rfl := mem_singleton.mp hi'
    exact hnot hj
  · show j ∈ pipe.instanceList ++ [i] ↔ _
    rw [mem_append, mem_singleton, hpipe.members, update_apply]
    split
    · rename_i hj
      exact iff_of_true (.inr hj) rfl
    · rename_i hj
      exact or_iff_left hj
  · show pipe.instanceCount + 1 = (pipe.instanceList ++ [i]).length
    rw [length_append, length_singleton, hpipe.count]
  · show pipe.name = if pipe.instanceCount + 1 = 0 then [] else pipe.created
    rw [hpipe.name, if_neg hcount, if_neg (Nat.succ_ne_zero _)]

/-- A new pipe has another name than those that are listed. -/
theorem PipesInv.distinct_mint
    (hfresh : ∀ q ∈ pipeList, ∀ a, pipes q = some a → equalNames a.name pipe.name = false) :
    Distinct (update pipes p (some pipe)) (pipeList ++ [p]) := by
  intro q hq r hr a b ha hb heq
  have hold {q : Nat} {a : Pipe} (hq : q ∈ pipeList ++ [p]) (hqp : q ≠ p)
      (ha : update pipes p (some pipe) q = some a) :
      q ∈ pipeList ∧ pipes q = some a ∧ equalNames a.name pipe.name = false := by
    rw [update_of_ne hqp] at ha
    have hq : q ∈ pipeList := by simpa [hqp] using hq
    exact ⟨hq, ha, hfresh q hq a ha⟩
  by_cases hqp : q = p
  · by_cases hrp : r = p
    · rw [hqp, hrp]
    · obtain ⟨-, -, hneq⟩ := hold hr hrp hb
      rw [hqp, update_self] at ha
      cases ha
      rw [equalNames_iff] at heq
      rw [Bool.eq_false_iff, Ne, equalNames_iff] at hneq
      exact absurd heq.symm hneq
  · obtain ⟨hq', ha', hneq⟩ := hold hq hqp ha
    by_cases hrp : r = p
    · rw [hrp, update_self] at hb
      cases hb
      rw [hneq] at heq
      cases heq
    · obtain ⟨hr', hb', -⟩ := hold hr hrp hb
      exact h.distinct q hq' r hr' a b ha' hb' heq

theorem PipesInv.mint (hp : pipes p = none)
    (hk : holding (i, .server) = none) (hi : serving i = none) (href : pipe.refCount = 0)
    (hcount : pipe.instanceCount = 0) (hlist : pipe.instanceList = []) (hname : pipe.name = pipe.created)
    (hroom : pipe.maxInstances ≠ 0)
    (hfresh : pipe.name ≠ [] →
      ∀ q ∈ pipeList, ∀ a, pipes q = some a → equalNames a.name pipe.name = false) :
    PipesInv (update holding (i, .server) (some p)) (update serving i (some p))
      (update pipes p (some (pipe.entered i)))
      (if pipe.name = [] then pipeList else pipeList ++ [p]) := by
  have hnot : p ∉ pipeList := fun hmem => h.live p hmem hp
  have hheld (k' : Nat × EndId) : holding k' ≠ some p := fun hk' => h.held k' p hk' hp
  have hserving (j : Nat) : serving j ≠ some p := fun hj => hheld _ (h.served j p hj)
  have hzero : Counted holding p pipe.refCount := by
    rw [href]
    exact .of_forall_ne hheld
  refine h.entered hk hi ?_ (fun q hqp => ?_) ?_
    ⟨hzero.fill hk, Nat.succ_ne_zero _, ?_, fun j => ?_, ?_, ?_, ?_, ?_⟩
  · split
    · exact h.nodup
    · refine nodup_append.mpr ⟨h.nodup, nodup_singleton _, ?_⟩
      rintro j hj _ hi' rfl
      obtain rfl := mem_singleton.mp hi'
      exact hnot hj
  · split
    · rfl
    · simp [hqp]
  · split
    · refine h.distinct.mono (Subset.refl _) fun q hq a ha => ⟨a, ?_, rfl⟩
      rwa [update_of_ne (by rintro rfl; exact hnot hq)] at ha
    · rename_i hne
      exact h.distinct_mint (hfresh hne)
  · show (pipe.instanceList ++ [i]).Nodup
    rw [hlist]
    exact nodup_singleton _
  · show j ∈ pipe.instanceList ++ [i] ↔ _
    rw [hlist, nil_append, mem_singleton, update_apply]
    split
    · rename_i hj
      exact iff_of_true hj rfl
    · rename_i hj
      exact iff_of_false hj (hserving j)
  · show pipe.instanceCount + 1 = (pipe.instanceList ++ [i]).length
    rw [hcount, hlist]
    rfl
  · show pipe.instanceCount + 1 ≤ pipe.maxInstances.toNat
    rw [hcount]
    exact Nat.pos_of_ne_zero fun hzero => hroom (UInt32.toNat_inj.mp hzero)
  · show pipe.name = if pipe.instanceCount + 1 = 0 then [] else pipe.created
    rw [if_neg (Nat.succ_ne_zero _), hname]
  · show _ ↔ pipe.name ≠ []
    split
    · rename_i hnil
      exact iff_of_false hnot (not_not.mpr hnil)
    · rename_i hne
      exact iff_of_true (mem_append_right _ (mem_singleton_self _)) hne

end

end

/-! ## Instances -/

structure PlacesInv (orderly : Prop) (s : Namespace) : Prop where
  intact : ∀ i x, s.instances i = some x → Intact orderly x.body
  endCount : ∀ i x, s.instances i = some x → x.endCount = x.body.openEnds.length ∧ x.endCount ≠ 0
  balanced : Balanced s.Live s.allocated s.freed
  known : ∀ r ∈ s.allocated, s.Known r

structure NamespaceInv (orderly : Prop) (s : Namespace) : Prop extends PlacesInv orderly s where
  pipes : PipesInv s.holding s.serving s.pipes s.pipeList

section
variable {s s' t : Namespace} {i p : Nat} {x y : Placed} {e : EndId} {pipe : Pipe} {body : Instance}
  {holding : Nat × EndId → Option Nat} {serving : Nat → Option Nat} {k : Nat × EndId} {r : Resource}
  {orderly : Prop}

theorem Namespace.findPipe_eq (h : s.pipes p = some pipe) : s.findPipe p = .ok pipe := by
  rw [Namespace.findPipe, h]

theorem Namespace.findInstance_eq (h : s.instances i = some x) : s.findInstance i = .ok x := by
  rw [Namespace.findInstance, h]

theorem holding_setInstance (s : Namespace) (i : Nat) (y : Placed) (k : Nat × EndId) :
    (s.setInstance i y).holding k = if k.1 = i then y.holding k.2 else s.holding k := by
  simp only [Namespace.holding, Namespace.setInstance, update_apply]
  split <;> rfl

theorem serving_setInstance (s : Namespace) (i : Nat) (y : Placed) (j : Nat) :
    (s.setInstance i y).serving j = if j = i then y.serving else s.serving j := by
  simp only [Namespace.serving, Namespace.setInstance, update_apply]
  split <;> rfl

section
variable (h : s.instances i = some x)
include h

theorem holding_of (e : EndId) : s.holding (i, e) = x.holding e := by
  rw [Namespace.holding, h]
  rfl

theorem serving_of : s.serving i = x.serving := by
  rw [Namespace.serving, h]
  rfl

theorem holding_setInstance_same (hy : ∀ e, y.holding e = x.holding e) :
    (s.setInstance i y).holding = s.holding := by
  funext k
  rw [holding_setInstance]
  split
  · rename_i hk
    rw [hy, ← holding_of h, ← hk]
  · rfl

theorem holding_setInstance_update {v : Option Nat}
    (hy : ∀ e', y.holding e' = if e' = e then v else x.holding e') :
    (s.setInstance i y).holding = update s.holding (i, e) v := by
  funext k
  rw [holding_setInstance, update_apply]
  split
  · rename_i hk
    rw [hy]
    split
    · rename_i he
      rw [if_pos (Prod.ext hk he)]
    · rename_i he
      rw [if_neg (fun heq => he (by rw [heq])), ← holding_of h, ← hk]
  · rename_i hk
    rw [if_neg fun heq => hk (by rw [heq])]

theorem serving_setInstance_same (hy : y.serving = x.serving) :
    (s.setInstance i y).serving = s.serving := by
  funext j
  rw [serving_setInstance]
  split
  · rename_i hj
    rw [hy, ← serving_of h, hj]
  · rfl

end

theorem serving_setInstance_update (s : Namespace) (i : Nat) (y : Placed) :
    (s.setInstance i y).serving = update s.serving i y.serving := by
  funext j
  rw [serving_setInstance, update_apply]

theorem live_setInstance (h : s.instances i = some x) :
    (s.setInstance i y).Live r ↔ match r with
      | .fileEnd j e => if j = i then e ∈ y.body.openEnds else s.Live r
      | _ => s.Live r := by
  cases r with
  | pipe q => rfl
  | placed j =>
    simp only [Namespace.Live, Namespace.setInstance, update_apply]
    split
    · rename_i hj
      rw [hj, h]
      exact iff_of_true nofun nofun
    · rfl
  | fileEnd j e =>
    simp only [Namespace.Live, Namespace.setInstance, update_apply]
    split
    · exact ⟨fun ⟨_, heq, he⟩ => by cases heq; exact he, fun he => ⟨y, rfl, he⟩⟩
    · rfl

theorem live_setInstance_same (h : s.instances i = some x) (hopen : y.body.openEnds = x.body.openEnds) :
    (s.setInstance i y).Live r ↔ s.Live r := by
  rw [live_setInstance h]
  cases r with
  | pipe | placed => rfl
  | fileEnd j e =>
    simp only
    split
    · rename_i hj
      subst hj
      rw [hopen]
      exact ⟨fun he => ⟨x, h, he⟩, fun ⟨_, heq, he⟩ => by rw [h] at heq; cases heq; exact he⟩
    · rfl

theorem Known.mono (h : s.Known r) (hpipe : s.nextPipe ≤ s'.nextPipe)
    (hplaced : s.nextInstance ≤ s'.nextInstance)
    (hinstances : ∀ i x', i < s.nextInstance → s'.instances i = some x' →
      ∃ x, s.instances i = some x ∧ x.body.connection ≤ x'.body.connection) : s'.Known r := by
  cases r with
  | pipe q => exact Nat.lt_of_lt_of_le h hpipe
  | placed j => exact Nat.lt_of_lt_of_le h hplaced
  | fileEnd j e =>
    refine ⟨Nat.lt_of_lt_of_le h.1 hplaced, fun x' n hx' he => ?_⟩
    obtain ⟨x, hx, hle⟩ := hinstances j x' h.1 hx'
    exact (h.2 x n hx he).trans hle

theorem Known.setInstance (h : s.Known r) (hx : s.instances i = some x)
    (hle : x.body.connection ≤ y.body.connection) : (s.setInstance i y).Known r := by
  refine Known.mono h (le_refl _) (le_refl _) fun j x' _ hx' => ?_
  simp only [Namespace.setInstance, update_apply] at hx'
  split at hx'
  · rename_i hj
    cases hx'
    exact ⟨x, hj ▸ hx, hle⟩
  · exact ⟨x', hx', le_refl _⟩

theorem PlacesInv.pipe_none (h : PlacesInv orderly s) : s.pipes s.nextPipe = none := by
  by_contra hne
  exact absurd (h.known _ ((h.balanced.accounted (.pipe s.nextPipe)).mpr (.inl hne))) (lt_irrefl _)

theorem PlacesInv.instance_none (h : PlacesInv orderly s) : s.instances s.nextInstance = none := by
  by_contra hne
  exact absurd (h.known _ ((h.balanced.accounted (.placed s.nextInstance)).mpr (.inl hne)))
    (lt_irrefl _)

structure SamePlaces (s s' : Namespace) : Prop where
  instances : s'.instances = s.instances
  nextPipe : s'.nextPipe = s.nextPipe
  nextInstance : s'.nextInstance = s.nextInstance
  allocated : s'.allocated = s.allocated

theorem SamePlaces.holding_eq (h : SamePlaces s s') : s'.holding = s.holding := by
  funext k
  rw [Namespace.holding, Namespace.holding, h.instances]

theorem SamePlaces.serving_eq (h : SamePlaces s s') : s'.serving = s.serving := by
  funext i
  rw [Namespace.serving, Namespace.serving, h.instances]

theorem PlacesInv.of_same (h : PlacesInv orderly s) (hsame : SamePlaces s s')
    (hbalanced : Balanced s'.Live s'.allocated s'.freed) : PlacesInv orderly s' where
  intact := by rw [hsame.instances]; exact h.intact
  endCount := by rw [hsame.instances]; exact h.endCount
  balanced := hbalanced
  known r hr := by
    rw [hsame.allocated] at hr
    refine Known.mono (h.known r hr) hsame.nextPipe.ge hsame.nextInstance.ge fun j x' _ hx' => ?_
    rw [hsame.instances] at hx'
    exact ⟨x', hx', le_refl _⟩

/-! ## The functions on pipes -/

theorem live_setPipe (hp : s.pipes p = some pipe) (a : Pipe) : (s.setPipe p a).Live r ↔ s.Live r := by
  cases r with
  | pipe q =>
    simp only [Namespace.Live, Namespace.setPipe, update_apply]
    split
    · rename_i hq
      rw [hq, hp]
      exact iff_of_true nofun nofun
    · rfl
  | placed | fileEnd => rfl

def Namespace.dropPipe (s : Namespace) (p : Nat) : Namespace :=
  { s with
    pipeList := s.pipeList.erase p
    pipes := update s.pipes p none }.free (.pipe p)

theorem npfsFreePipe_eq (hp : s.pipes p = some pipe) (hcount : pipe.instanceCount = 0)
    (href : pipe.refCount = 0) : npfsFreePipe s p = .ok (s.dropPipe p) := by
  rw [npfsFreePipe, Namespace.findPipe_eq hp]
  show (if pipe.instanceCount ≠ 0 then _ else if pipe.refCount ≠ 0 then _ else _) = _
  rw [if_neg (not_not.mpr hcount), if_neg (not_not.mpr href)]
  rfl

theorem live_dropPipe (hp : s.pipes p = some pipe) :
    s.Live (.pipe p) ∧ ∀ r, (s.dropPipe p).Live r ↔ s.Live r ∧ r ≠ .pipe p := by
  refine ⟨by rw [Namespace.Live, hp]; nofun, fun r => ?_⟩
  cases r with
  | pipe q =>
    simp only [Namespace.Live, Namespace.dropPipe, Namespace.free, update_apply]
    split
    · rename_i hq
      exact iff_of_false (not_not.mpr rfl) fun h => h.2 (by rw [hq])
    · rename_i hq
      exact (and_iff_left fun heq => hq (by cases heq; rfl)).symm
  | placed j => exact (and_iff_left nofun).symm
  | fileEnd j e => exact (and_iff_left nofun).symm

def Pipe.dropped (pipe : Pipe) : Pipe := { pipe with refCount := pipe.refCount - 1 }

theorem npfsDereferencePipe_eq (hp : s.pipes p = some pipe) (href : pipe.refCount ≠ 0)
    (hlast : pipe.refCount = 1 → pipe.instanceCount = 0) : npfsDereferencePipe s p =
      if pipe.refCount = 1 then .ok ((s.setPipe p pipe.dropped).dropPipe p)
      else .ok (s.setPipe p pipe.dropped) := by
  have hset : (s.setPipe p pipe.dropped).pipes p = some pipe.dropped := update_self ..
  rw [npfsDereferencePipe, Namespace.findPipe_eq hp]
  show (if pipe.refCount = 0 then .error .refCount
    else if pipe.refCount - 1 = 0 then
      if pipe.instanceCount ≠ 0 then .error .instanceCount
      else npfsFreePipe (s.setPipe p pipe.dropped) p
    else .ok (s.setPipe p pipe.dropped)) = _
  rw [if_neg href]
  split
  · rename_i hzero
    have hone : pipe.refCount = 1 := by omega
    rw [if_neg (not_not.mpr (hlast hone)), if_pos hone]
    exact npfsFreePipe_eq hset (hlast hone) hzero
  · rename_i hmore
    rw [if_neg (by omega)]

theorem npfsDereferencePipe_spec (h : PipesInv holding serving s.pipes s.pipeList)
    (hk : holding k = some p) (hserver : ∀ i, k = (i, .server) → serving i = none)
    (hbalanced : Balanced s.Live s.allocated s.freed) : ∃ s', npfsDereferencePipe s p = .ok s' ∧
      SamePlaces s s' ∧ PipesInv (update holding k none) serving s'.pipes s'.pipeList ∧
      Balanced s'.Live s'.allocated s'.freed := by
  obtain ⟨pipe, hp⟩ := ne_none_iff_exists'.mp (h.held k p hk)
  have hreferenced := (h.pipe p pipe hp).referenced
  have hrelease := h.release hk hserver hp
  rw [npfsDereferencePipe_eq hp hreferenced (h.last hk hserver hp)]
  have hset : (s.setPipe p pipe.dropped).pipes p = some pipe.dropped := update_self ..
  have hbalanced' : Balanced (s.setPipe p pipe.dropped).Live s.allocated s.freed :=
    hbalanced.congr fun _ => live_setPipe hp pipe.dropped
  split
  · rename_i hone
    rw [if_pos hone] at hrelease
    have hpipes : ((s.setPipe p pipe.dropped).dropPipe p).pipes = update s.pipes p none :=
      update_idem ..
    obtain ⟨hlive, hfreed⟩ := live_dropPipe hset
    refine ⟨(s.setPipe p pipe.dropped).dropPipe p, rfl, ⟨rfl, rfl, rfl, rfl⟩, ?_,
      hbalanced'.free hlive hfreed⟩
    rw [hpipes]
    exact hrelease
  · rename_i hmore
    rw [if_neg hmore] at hrelease
    exact ⟨s.setPipe p pipe.dropped, rfl, ⟨rfl, rfl, rfl, rfl⟩, hrelease, hbalanced'⟩

theorem leavePipe_eq (hp : s.pipes p = some pipe) (hcount : pipe.instanceCount ≠ 0) :
    leavePipe s p i = .ok (s.setPipe p { pipe with
      instanceList := pipe.instanceList.erase i
      instanceCount := pipe.instanceCount - 1 }) := by
  rw [leavePipe, Namespace.findPipe_eq hp]
  exact if_neg hcount

theorem leaveNamespace_spec (h : PipesInv holding serving s.pipes s.pipeList)
    (hi : serving i = some (x.pipe .server)) (hpipe : (x.body.ends .server).pipe = true)
    (hbalanced : Balanced s.Live s.allocated s.freed) : ∃ s', leaveNamespace s i x = .ok s' ∧
      SamePlaces s s' ∧ PipesInv holding (update serving i none) s'.pipes s'.pipeList ∧
      Balanced s'.Live s'.allocated s'.freed := by
  obtain ⟨pipe, hp⟩ := ne_none_iff_exists'.mp (h.held _ _ (h.served i _ hi))
  obtain ⟨hpos, hleave⟩ := h.leave hi hp
  have hreferenced := (h.pipe _ pipe hp).referenced
  have hpipe' : ¬ (!(x.body.ends .server).pipe) = true := by rw [hpipe]; nofun
  rw [leaveNamespace, if_neg hpipe', leavePipe_eq hp hpos]
  have hset (a : Pipe) : (s.setPipe (x.pipe .server) a).pipes (x.pipe .server) = some a :=
    update_self ..
  show ∃ s', (Namespace.findPipe _ _ >>= _) = _ ∧ _
  rw [Namespace.findPipe_eq (hset _)]
  by_cases hzero : pipe.instanceCount - 1 = 0
  · rw [if_pos hzero] at hleave
    refine ⟨{ s.setPipe (x.pipe .server) (pipe.left i) with
      pipeList := s.pipeList.erase (x.pipe .server) }, ?_, ⟨rfl, rfl, rfl, rfl⟩, hleave,
      hbalanced.congr fun r => live_setPipe hp (pipe.left i)⟩
    show (if pipe.instanceCount - 1 = 0 then npfsUnlinkPipe _ _ else _) = _
    rw [if_pos hzero, npfsUnlinkPipe, Namespace.findPipe_eq (hset _)]
    show (if pipe.instanceCount - 1 ≠ 0 then _ else if pipe.refCount = 0 then _ else _) = _
    rw [if_neg (not_not.mpr hzero), if_neg hreferenced]
    simp [Namespace.setPipe, Pipe.left, hzero]
  · rw [if_neg hzero] at hleave
    refine ⟨s.setPipe (x.pipe .server) (pipe.left i), ?_, ⟨rfl, rfl, rfl, rfl⟩, hleave,
      hbalanced.congr fun r => live_setPipe hp (pipe.left i)⟩
    show (if pipe.instanceCount - 1 = 0 then _ else _) = _
    rw [if_neg hzero, Pipe.left, if_neg hzero]

/-! ## Steps within an instance -/

def WithinBytes (halt : NamespaceHalt) : Prop := ∃ h, halt = .body h ∧ AboutBytes h

theorem withinInstance_ends {α : Type} {a : Except Halt α} {Q : α → Prop} (h : Ends AboutBytes a Q) :
    Ends WithinBytes (withinInstance a) Q := by
  cases a with
  | ok b => exact h
  | error halt => exact ⟨halt, rfl, h⟩

theorem PlacesInv.setBody (h : PlacesInv orderly s) (hx : s.instances i = some x) (hbody : Intact orderly body)
    (hopen : body.openEnds = x.body.openEnds) (hle : x.body.connection ≤ body.connection) :
    PlacesInv orderly (s.setInstance i { x with body }) where
  intact j y hy := by
    simp only [Namespace.setInstance, update_apply] at hy
    split at hy
    · cases hy
      exact hbody
    · exact h.intact j y hy
  endCount j y hy := by
    simp only [Namespace.setInstance, update_apply] at hy
    split at hy
    · cases hy
      show x.endCount = body.openEnds.length ∧ x.endCount ≠ 0
      rw [hopen]
      exact h.endCount i x hx
    · exact h.endCount j y hy
  balanced := h.balanced.congr fun r => live_setInstance_same hx hopen
  known r hr := Known.setInstance (h.known r hr) hx hle

theorem NamespaceInv.setBody (h : NamespaceInv orderly s) (hx : s.instances i = some x) (hbody : Intact orderly body)
    (hkept : Kept x.body body) : NamespaceInv orderly (s.setInstance i { x with body }) where
  toPlacesInv := h.toPlacesInv.setBody hx hbody hkept.openEnds hkept.connection.ge
  pipes := by
    rw [holding_setInstance_same hx, serving_setInstance_same hx]
    · exact h.pipes
    · rw [Placed.serving, Placed.serving, hkept.serverEnd]
    · intro e
      rw [Placed.holding, Placed.holding, hkept.openEnds, (hkept.ends e).1]

theorem requestWithin_spec {op : Op} (h : NamespaceInv orderly s) (hx : s.instances i = some x)
    (hop : op.Enabled x.body) (horderly : orderly → op.Orderly x.body) (hmoves : ¬ op.Moves) :
    Ends WithinBytes (requestWithin s i op) (NamespaceInv orderly) := by
  rw [requestWithin, Namespace.findInstance_eq hx]
  exact (withinInstance_ends (step_intact (h.intact i x hx) hop horderly hmoves)).bind fun body hbody =>
    Ends.ok (h.setBody hx hbody.1 hbody.2)

theorem Placed.holding_of_has (hbody : Intact orderly x.body) (he : x.body.has e = true)
    (hpipe : (x.body.ends e).pipe = true) : x.holding e = some (x.pipe e) :=
  if_pos ⟨(hbody.members.held e he).1, hpipe⟩

theorem Placed.serving_of_server (he : x.body.serverEnd = true) :
    x.serving = some (x.pipe .server) := if_pos he

theorem dereferenceOrphan_spec (h : NamespaceInv orderly s) (hx : s.instances i = some x) (hbody : Intact orderly body)
    (hkept : Kept (throwOut x.body) body) :
    Ends WithinBytes (dereferenceOrphan (s.setInstance i { x with body }) x) (NamespaceInv orderly) := by
  have hintact := h.intact i x hx
  obtain ⟨-, hserver, hopen, hends⟩ := throwOut_frame x.body
  obtain ⟨-, -, -, -, -, hconnection⟩ := throwOut_parked (s := x.body)
  have hplaces : PlacesInv orderly (s.setInstance i { x with body }) :=
    h.toPlacesInv.setBody hx hbody (hkept.openEnds.trans hopen)
      (hkept.connection.trans hconnection).ge
  have hserving : (s.setInstance i { x with body }).serving = s.serving :=
    serving_setInstance_same hx (by rw [Placed.serving, Placed.serving, hkept.serverEnd, hserver])
  have hholding (e : EndId) : Placed.holding { x with body } e =
      if e ∈ x.body.openEnds ∧ ((throwOut x.body).ends e).pipe = true then some (x.pipe e) else none := by
    rw [Placed.holding, (hkept.ends e).1, hkept.openEnds, hopen]
  rw [dereferenceOrphan]
  split
  · rename_i n hclient
    have hpipe : (x.body.ends (.client n)).pipe = true :=
      (hintact.sound.linked.clientPipe n hclient).1
    have hhas : x.body.has (.client n) = true := by simp [Instance.has, hclient]
    have hk : s.holding (i, .client n) = some (x.pipe (.client n)) := by
      rw [holding_of hx]
      exact Placed.holding_of_has hintact hhas hpipe
    have hholding' : (s.setInstance i { x with body }).holding =
        update s.holding (i, .client n) none := by
      refine holding_setInstance_update hx fun e => ?_
      rw [hholding, Placed.holding]
      cases e with
      | server => rw [hends, if_neg (by simp : EndId.server ≠ .client n)]
      | client m =>
        rw [(throwOut_client x.body m).2, hclient]
        by_cases hmn : m = n
        · simp [hmn]
        · have hnm : ¬ n = m := fun h => hmn h.symm
          simp [hmn, hnm]
    obtain ⟨s', heq, hsame, hpipes, hbalanced⟩ :=
      npfsDereferencePipe_spec (s := s.setInstance i { x with body }) h.pipes hk (by simp) hplaces.balanced
    refine Ends.ite (fun hno => by simp [hpipe] at hno) fun _ => ?_
    rw [heq]
    refine Ends.ok ⟨hplaces.of_same hsame hbalanced, ?_⟩
    rw [hsame.holding_eq, hsame.serving_eq, hholding', hserving]
    exact hpipes
  · rename_i hclient
    refine Ends.ok ⟨hplaces, ?_⟩
    rw [hserving, holding_setInstance_same hx]
    · exact h.pipes
    · intro e
      rw [hholding, Placed.holding]
      cases e with
      | server => rw [hends]
      | client m => simp [(throwOut_client x.body m).2, hclient]

theorem npfsDisconnectEnd_spec (h : NamespaceInv orderly s) (hx : s.instances i = some x) :
    Ends WithinBytes (npfsDisconnectEnd s i e) (NamespaceInv orderly) := by
  rw [npfsDisconnectEnd, Namespace.findInstance_eq hx]
  refine (withinInstance_ends (npfsDisconnect_intact (e := e) (h.intact i x hx))).bind ?_
  rintro ⟨body, status⟩ ⟨hbody, ⟨hstatus, rfl⟩ | ⟨hstatus, hkept⟩⟩
  · refine Ends.ite (fun _ => Ends.ok ?_) fun hno => absurd hstatus hno
    exact h.setBody hx hbody (.refl _)
  · exact Ends.ite (fun hno => absurd hstatus hno) fun _ => dereferenceOrphan_spec h hx hbody hkept

def CleanedTo (s : Namespace) (i : Nat) (e : EndId) (x : Placed) : Prop :=
  ∃ y, s.instances i = some y ∧ Kept (leave x.body e) y.body ∧ outstanding y.body ⊆ outstanding x.body

theorem npfsCleanupEnd_spec (h : NamespaceInv orderly s) (hx : s.instances i = some x) :
    Ends WithinBytes (npfsCleanupEnd s i e) fun s' => NamespaceInv orderly s' ∧ CleanedTo s' i e x := by
  have hintact := h.intact i x hx
  rw [npfsCleanupEnd, Namespace.findInstance_eq hx]
  refine (withinInstance_ends (npfsVfsCleanup_intact e hintact)).bind ?_
  rintro body ⟨hbody, hkept, hsub⟩
  obtain ⟨hconnection, hopen, -⟩ := leave_frame x.body e
  have hplaces : PlacesInv orderly (s.setInstance i { x with body }) :=
    h.toPlacesInv.setBody hx hbody (hkept.openEnds.trans hopen) (hkept.connection.trans hconnection).ge
  have hcleaned {s' : Namespace} (heq : s'.instances = (s.setInstance i { x with body }).instances) :
      CleanedTo s' i e x := ⟨{ x with body }, heq ▸ update_self .., hkept, hsub⟩
  have hholding : (s.setInstance i { x with body }).holding = s.holding := by
    refine holding_setInstance_same hx fun e' => ?_
    rw [Placed.holding, Placed.holding, (hkept.ends e').1, leave_ends.1, hkept.openEnds, hopen]
  have hserver : body.serverEnd = (x.body.serverEnd && decide (EndId.server ≠ e)) :=
    hkept.serverEnd.trans (has_leave : (leave x.body e).has .server = _)
  refine Ends.ite (fun hboth => ?_) fun hnot => Ends.ok ⟨⟨hplaces, ?_⟩, hcleaned rfl⟩
  · obtain ⟨rfl, hend⟩ := hboth
    have hserving : (s.setInstance i { x with body }).serving = update s.serving i none := by
      rw [serving_setInstance_update]
      congr 1
      rw [Placed.serving, hserver]
      simp
    have hi : s.serving i = some (x.pipe .server) := by
      rw [serving_of hx, Placed.serving_of_server hend]
    obtain ⟨s', heq, hsame, hpipes, hbalanced⟩ := leaveNamespace_spec
      (s := s.setInstance i { x with body }) h.pipes hi hintact.sound.linked.serverPipe hplaces.balanced
    rw [heq]
    refine Ends.ok ⟨⟨hplaces.of_same hsame hbalanced, ?_⟩, hcleaned hsame.instances⟩
    rw [hsame.holding_eq, hsame.serving_eq, hholding, hserving]
    exact hpipes
  · rw [hholding, serving_setInstance_same hx]
    · exact h.pipes
    · have hsame : body.serverEnd = x.body.serverEnd := by
        rw [hserver]
        cases hend : x.body.serverEnd with
        | false => rfl
        | true => simpa using fun heq => hnot ⟨heq.symm, hend⟩
      rw [Placed.serving, Placed.serving, hsame]

/-! ## Closing -/

theorem freeFileEnd_some (h : PlacesInv orderly s) (hx : s.instances i = some x) (hhas : x.body.has e = false)
    (hclosable : Closable x.body e)
    (hpipes : PipesInv (update s.holding (i, e) none) s.serving s.pipes s.pipeList)
    (hmore : x.endCount - 1 ≠ 0) :
    NamespaceInv orderly ((s.free (.fileEnd i e)).setInstance i
      { x with body := freeEnd x.body e, endCount := x.endCount - 1 }) := by
  have hintact := h.intact i x hx
  obtain ⟨-, hserver, -, hends, hconnection, hopen, -⟩ := freeEnd_frame x.body e
  obtain ⟨hcount, -⟩ := h.endCount i x hx
  have hlength : (x.body.openEnds.erase e).length = x.endCount - 1 := by
    rw [length_erase_of_mem hclosable.1, hcount]
  refine ⟨⟨fun j y hy => ?_, fun j y hy => ?_, ?_, fun r hr => ?_⟩, ?_⟩
  · simp only [Namespace.setInstance, Namespace.free, update_apply] at hy
    split at hy
    · cases hy
      exact hintact.free hhas hclosable
    · exact h.intact j y hy
  · simp only [Namespace.setInstance, Namespace.free, update_apply] at hy
    split at hy
    · cases hy
      show x.endCount - 1 = (freeEnd x.body e).openEnds.length ∧ _
      rw [hopen, hlength]
      exact ⟨rfl, hmore⟩
    · exact h.endCount j y hy
  · have hfree : s.Live (.fileEnd i e) := ⟨x, hx, hclosable.1⟩
    refine h.balanced.free hfree fun r => ?_
    have hlive := live_setInstance (s := s.free (.fileEnd i e)) (r := r)
      (y := { x with body := freeEnd x.body e, endCount := x.endCount - 1 }) hx
    refine hlive.trans ?_
    cases r with
    | pipe | placed => exact (and_iff_left nofun).symm
    | fileEnd j e' =>
      simp only
      split
      · rename_i hj
        subst hj
        rw [hopen, hintact.members.nodup.mem_erase_iff]
        constructor
        · rintro ⟨hne, hmem⟩
          exact ⟨⟨x, hx, hmem⟩, fun heq => hne (by cases heq; rfl)⟩
        · rintro ⟨⟨y, hy, hmem⟩, hne⟩
          rw [hx] at hy
          cases hy
          exact ⟨fun heq => hne (by rw [heq]), hmem⟩
      · rename_i hj
        exact (and_iff_left fun heq => hj (by cases heq; rfl)).symm
  · exact Known.setInstance (s := s.free (.fileEnd i e)) (h.known r hr) hx hconnection.ge
  · have hholding : ((s.free (.fileEnd i e)).setInstance i
        { x with body := freeEnd x.body e, endCount := x.endCount - 1 }).holding =
        update s.holding (i, e) none := by
      refine holding_setInstance_update (s := s.free (.fileEnd i e)) hx fun e' => ?_
      rw [Placed.holding, Placed.holding, hends, hopen]
      by_cases he : e' = e
      · rw [if_pos he]
        exact if_neg fun h => (hintact.members.nodup.mem_erase_iff.mp h.1).1 he
      · rw [if_neg he]
        simp only [mem_erase_of_ne he]
    rw [hholding, serving_setInstance_same (s := s.free (.fileEnd i e)) hx]
    · exact hpipes
    · rw [Placed.serving, Placed.serving, hserver]

def Namespace.dropInstance (s : Namespace) (i : Nat) (e : EndId) : Namespace :=
  { s.free (.fileEnd i e) with instances := update s.instances i none }.free (.placed i)

theorem dropInstance_some {j : Nat} (hy : (s.dropInstance i e).instances j = some y) :
    j ≠ i ∧ s.instances j = some y := by
  simp only [Namespace.dropInstance, Namespace.free, update_apply] at hy
  split at hy
  · cases hy
  · rename_i hj
    exact ⟨hj, hy⟩

section
variable (h : PlacesInv orderly s) (hx : s.instances i = some x)
include h hx

theorem PlacesInv.dropInstance
    (honly : x.body.openEnds = [e]) : PlacesInv orderly (s.dropInstance i e) := by
  have hmem : e ∈ x.body.openEnds := by rw [honly]; exact mem_singleton_self _
  refine ⟨fun j y hy => h.intact j y (dropInstance_some hy).2,
    fun j y hy => h.endCount j y (dropInstance_some hy).2, ?_, fun r hr => Known.mono (h.known r hr)
    (le_refl _) (le_refl _) fun j y _ hy => ⟨y, (dropInstance_some hy).2, le_refl _⟩⟩
  have hfirst : Balanced (fun r => s.Live r ∧ r ≠ .fileEnd i e) s.allocated
      (.fileEnd i e :: s.freed) := h.balanced.free ⟨x, hx, hmem⟩ fun _ => Iff.rfl
  refine hfirst.free (a := .placed i) ⟨by rw [Namespace.Live, hx]; nofun, nofun⟩ fun r => ?_
  cases r with
  | pipe q => exact ⟨fun h => ⟨⟨h, nofun⟩, nofun⟩, fun h => h.1.1⟩
  | placed j =>
    simp only [Namespace.Live, Namespace.dropInstance, Namespace.free, update_apply]
    split
    · rename_i hj
      exact iff_of_false (not_not.mpr rfl) fun h => h.2 (by rw [hj])
    · rename_i hj
      exact ⟨fun h => ⟨⟨h, nofun⟩, fun heq => hj (by cases heq; rfl)⟩, fun h => h.1.1⟩
  | fileEnd j e' =>
    constructor
    · rintro ⟨y, hy, he'⟩
      obtain ⟨hj, hy⟩ := dropInstance_some hy
      exact ⟨⟨⟨y, hy, he'⟩, fun heq => hj (by cases heq; rfl)⟩, nofun⟩
    · rintro ⟨⟨⟨y, hy, he'⟩, hne⟩, -⟩
      refine ⟨y, ?_, he'⟩
      show update s.instances i none j = some y
      rw [update_of_ne, hy]
      rintro rfl
      rw [hx] at hy
      cases hy
      rw [honly, mem_singleton] at he'
      exact hne (by rw [he'])

theorem freeFileEnd_none (hhas : x.body.has e = false)
    (hclosable : Closable x.body e)
    (hpipes : PipesInv (update s.holding (i, e) none) s.serving s.pipes s.pipeList)
    (hlast : x.endCount - 1 = 0) : NamespaceInv orderly (s.dropInstance i e) := by
  have hintact := h.intact i x hx
  obtain ⟨hcount, hpos⟩ := h.endCount i x hx
  have honly : x.body.openEnds = [e] := by
    obtain ⟨e0, he0⟩ : ∃ e0, x.body.openEnds = [e0] := length_eq_one_iff.mp (by omega)
    have he : e = e0 := by simpa [he0] using hclosable.1
    rw [he0, he]
  have hserver : x.body.serverEnd = false := by
    refine Bool.eq_false_iff.mpr fun hend => ?_
    have he := (hintact.members.held .server hend).1
    rw [honly, mem_singleton] at he
    rw [← he, Instance.has, hend] at hhas
    cases hhas
  refine ⟨h.dropInstance hx honly, ?_⟩
  have hholding : (s.dropInstance i e).holding = update s.holding (i, e) none := by
    funext k
    simp only [Namespace.holding, Namespace.dropInstance, Namespace.free, update_apply]
    by_cases hk : k.1 = i
    · rw [if_pos hk, hk, hx]
      split
      · rfl
      · rename_i hne
        refine (if_neg fun hboth => hne ?_).symm
        have he := hboth.1
        rw [honly, mem_singleton] at he
        exact Prod.ext hk he
    · rw [if_neg hk, if_neg fun heq => hk (by rw [heq])]
  have hserving : (s.dropInstance i e).serving = s.serving := by
    funext j
    simp only [Namespace.serving, Namespace.dropInstance, Namespace.free, update_apply]
    split
    · rename_i hj
      rw [hj, hx]
      exact (if_neg (by rw [hserver]; simp)).symm
    · rfl
  rw [hholding, hserving]
  exact hpipes

theorem freeFileEnd_spec (hhas : x.body.has e = false)
    (hclosable : Closable x.body e)
    (hpipes : PipesInv (update s.holding (i, e) none) s.serving s.pipes s.pipeList) :
    Ends WithinBytes (freeFileEnd s i e x) (NamespaceInv orderly) := by
  obtain ⟨-, hpos⟩ := h.endCount i x hx
  refine Ends.ite (fun hzero => absurd hzero hpos) fun _ => Ends.ite (fun hlast => ?_) fun hmore => ?_
  · exact Ends.ok (freeFileEnd_none h hx hhas hclosable hpipes hlast)
  · exact Ends.ok (freeFileEnd_some h hx hhas hclosable hpipes hmore)

end

theorem releaseEnd_spec (h : NamespaceInv orderly s) (hx : s.instances i = some x)
    (hhas : x.body.has e = false) (hclosable : Closable x.body e) :
    Ends WithinBytes (releaseEnd s i e) (NamespaceInv orderly) := by
  rw [releaseEnd, Namespace.findInstance_eq hx]
  refine Ends.ite (fun hne => absurd hclosable.pendingOn hne) fun _ => Ends.ite (fun hpipe => ?_) fun hpipe => ?_
  · have hk : s.holding (i, e) = some (x.pipe e) := by
      rw [holding_of hx]
      exact if_pos ⟨hclosable.1, hpipe⟩
    have hserver (j : Nat) (hj : (i, e) = (j, .server)) : s.serving j = none := by
      cases hj
      rw [serving_of hx]
      exact if_neg (by rw [show x.body.serverEnd = false from hhas]; nofun)
    obtain ⟨s', heq, hsame, hpipes, hbalanced⟩ :=
      npfsDereferencePipe_spec h.pipes hk hserver h.balanced
    rw [heq]
    refine freeFileEnd_spec (h.toPlacesInv.of_same hsame hbalanced) (hsame.instances ▸ hx) hhas hclosable ?_
    rw [hsame.holding_eq, hsame.serving_eq]
    exact hpipes
  · refine freeFileEnd_spec h.toPlacesInv hx hhas hclosable ?_
    have hk : s.holding (i, e) = none := by
      rw [holding_of hx]
      exact if_neg fun hboth => hpipe hboth.2
    rw [← hk, update_eq_self]
    exact h.pipes

theorem npfsCloseEnd_spec (h : NamespaceInv orderly s) (hx : s.instances i = some x)
    (hclosable : Closable x.body e) : Ends WithinBytes (npfsCloseEnd s i e) (NamespaceInv orderly) := by
  rw [npfsCloseEnd, Namespace.findInstance_eq hx]
  refine Ends.ite (fun _ => ?_) fun hhas =>
    releaseEnd_spec h hx (Bool.eq_false_iff.mpr hhas) hclosable
  refine (npfsCleanupEnd_spec h hx).bind fun s' hs' => ?_
  obtain ⟨hinv, y, hy, hkept, hsub⟩ := hs'
  obtain ⟨-, hopen, -⟩ := leave_frame x.body e
  refine releaseEnd_spec hinv hy ?_ ?_
  · rw [hkept.has, has_leave]
    simp
  · rw [closable_iff] at hclosable ⊢
    rw [hkept.openEnds, hopen]
    exact ⟨hclosable.1, fun r hr => hclosable.2 r (hsub hr)⟩

/-! ## Opening -/

theorem PlacesInv.lt_nextInstance (h : PlacesInv orderly s) (hx : s.instances i = some x) : i < s.nextInstance := by
  have hlive : s.Live (.placed i) := by
    rw [Namespace.Live, hx]
    nofun
  exact h.known _ ((h.balanced.accounted _).mpr (.inl hlive))

theorem PlacesInv.client_fresh (h : PlacesInv orderly s) (hx : s.instances i = some x) :
    .fileEnd i (.client (x.body.connection + 1)) ∉ s.allocated := fun hmem =>
  absurd ((h.known _ hmem).2 x _ hx rfl) (Nat.not_succ_le_self _)

/-- What an instance is once a client has come to it. -/
def Placed.attached (x : Placed) (body : Instance) (p : Nat) : Placed :=
  ⟨body, update x.pipe (.client body.connection) p, x.endCount + 1⟩

section
variable {synchronousIo : Bool} (hkept : Kept (connect x.body synchronousIo) body)
include hkept

theorem connected_connection : body.connection = x.body.connection + 1 := hkept.connection

theorem connected_openEnds : body.openEnds = .client body.connection :: x.body.openEnds := by
  rw [connected_connection hkept]
  exact hkept.openEnds

theorem attached_holding (e : EndId) : (x.attached body p).holding e =
    if e = .client body.connection then some p else x.holding e := by
  have hconnection := connected_connection hkept
  have hopen := connected_openEnds hkept
  split
  · rename_i he
    have hpipe : (body.ends e).pipe = true := by
      rw [(hkept.ends e).1, he, hconnection]
      simp [connect, Instance.setEnd]
    rw [Placed.holding, if_pos ⟨by rw [he]; exact hopen ▸ mem_cons_self .., hpipe⟩, he]
    exact congrArg some (update_self ..)
  · rename_i he
    have hmem : e ∈ body.openEnds ↔ e ∈ x.body.openEnds := by
      rw [hopen, mem_cons]
      exact or_iff_right he
    have hto : update x.pipe (.client body.connection) p e = x.pipe e := update_of_ne he ..
    have hpipe : (body.ends e).pipe = (x.body.ends e).pipe := by
      rw [(hkept.ends e).1, connect, Instance.setEnd]
      rw [hconnection] at he
      simp [he]
    simp only [Placed.holding, Placed.attached, hto, hmem, hpipe]

theorem attached_serving : (x.attached body p).serving = x.serving := by
  have hend : body.serverEnd = x.body.serverEnd := hkept.serverEnd
  have hne : EndId.server ≠ .client body.connection := by simp
  have hto : (x.attached body p).pipe .server = x.pipe .server := update_of_ne hne p x.pipe
  rw [Placed.serving, Placed.serving, hto]
  simp only [Placed.attached, hend]

theorem live_attached (hx : s.instances i = some x) : (s.setInstance i (x.attached body p)).Live r ↔
    s.Live r ∨ r = .fileEnd i (.client body.connection) := by
  refine (live_setInstance hx).trans ?_
  cases r with
  | pipe q => exact (or_iff_left (by simp)).symm
  | placed j => exact (or_iff_left (by simp)).symm
  | fileEnd j e =>
    simp only
    split
    · rename_i hj
      subst hj
      rw [show (x.attached body p).body.openEnds = _ from connected_openEnds hkept, mem_cons, or_comm]
      refine or_congr ⟨fun he => ⟨x, hx, he⟩, ?_⟩ ⟨fun he => by rw [he]; rfl, fun heq => by cases heq; rfl⟩
      rintro ⟨z, hz, he⟩
      rw [hx] at hz
      cases hz
      exact he
    · rename_i hj
      exact (or_iff_left fun heq => hj (by cases heq; rfl)).symm

theorem attachEnd_spec (h : NamespaceInv orderly s) (hx : s.instances i = some x)
    (hbody : Intact orderly body) (hp : s.pipes p = some pipe) :
    ∃ s' y, attachEnd s p i x body = .ok s' ∧ NamespaceInv orderly s' ∧ s'.instances i = some y ∧ y.body = body := by
  have hconnection := connected_connection hkept
  have hopen := connected_openEnds hkept
  have hnot : EndId.client body.connection ∉ x.body.openEnds := fun hmem => by
    have := (h.intact i x hx).members.known _ hmem
    omega
  let t : Namespace := s.setPipe p { pipe with refCount := pipe.refCount + 1 }
  have hinstances {j : Nat} {z : Placed} (hz : (t.setInstance i (x.attached body p)).instances j = some z) :
      (j = i ∧ z = x.attached body p) ∨ s.instances j = some z := by
    simp only [t, Namespace.setInstance, Namespace.setPipe, update_apply] at hz
    split at hz
    · rename_i hj
      cases hz
      exact .inl ⟨hj, rfl⟩
    · exact .inr hz
  refine ⟨(t.setInstance i (x.attached body p)).allocate (.fileEnd i (.client body.connection)),
    x.attached body p, ?_, ⟨⟨fun j z hz => ?_, fun j z hz => ?_, ?_, fun r hr => ?_⟩, ?_⟩, update_self .., rfl⟩
  · rw [attachEnd, npfsReferencePipe, Namespace.findPipe_eq hp]
    rfl
  · obtain ⟨-, rfl⟩ | hz := hinstances hz
    · exact hbody
    · exact h.intact j z hz
  · obtain ⟨-, rfl⟩ | hz := hinstances hz
    · show x.endCount + 1 = body.openEnds.length ∧ x.endCount + 1 ≠ 0
      rw [hopen, length_cons, (h.endCount i x hx).1]
      exact ⟨rfl, Nat.succ_ne_zero _⟩
    · exact h.endCount j z hz
  · have hfresh : Resource.fileEnd i (.client body.connection) ∉ s.allocated := by
      rw [hconnection]
      exact h.client_fresh hx
    refine h.balanced.allocate hfresh fun r => ?_
    exact (live_attached (s := t) hkept hx).trans (or_congr (live_setPipe hp _) Iff.rfl)
  · rcases mem_cons.mp hr with rfl | hr
    · refine ⟨h.lt_nextInstance hx, fun z n hz he => ?_⟩
      have hz : update s.instances i (some (x.attached body p)) i = some z := hz
      rw [update_self] at hz
      cases hz
      cases he
      exact le_refl _
    · have hle : x.body.connection ≤ (x.attached body p).body.connection := by
        show x.body.connection ≤ body.connection
        omega
      have hknown : t.Known r := by
        have := h.known r hr
        cases r <;> exact this
      exact Known.setInstance (s := t) hknown hx hle
  · have hholding : ((t.setInstance i (x.attached body p)).allocate
        (.fileEnd i (.client body.connection))).holding =
          update s.holding (i, .client body.connection) (some p) :=
      holding_setInstance_update (s := t) hx (attached_holding hkept)
    have hserving : ((t.setInstance i (x.attached body p)).allocate
        (.fileEnd i (.client body.connection))).serving = s.serving :=
      serving_setInstance_same (s := t) hx (attached_serving hkept)
    rw [hholding, hserving]
    refine h.pipes.hold hp ?_
    rw [holding_of hx]
    exact if_neg fun hboth => hnot hboth.1

end

def Opened (orderly : Prop) (r : Namespace × NtStatus × FsContext) : Prop :=
  NamespaceInv orderly r.1 ∧ ∀ i e, r.2.2 = some (i, e) → ∃ y, r.1.instances i = some y ∧ Closable y.body e

theorem Opened.refused (h : NamespaceInv orderly s) (status : NtStatus) : Opened orderly (s, status, none) := ⟨h, nofun⟩

theorem listeningInstance_some (h : listeningInstance s pipe = some i) : ∃ x, s.instances i = some x := by
  have hfound := find?_some h
  split at hfound
  · rename_i x hx
    exact ⟨x, hx⟩
  · cases hfound

theorem npfsAttachPipe_spec (h : NamespaceInv orderly s) (hp : s.pipes p = some pipe) (call : OpenCall) :
    Ends WithinBytes (npfsAttachPipe s p call) (Opened orderly) := by
  rw [npfsAttachPipe, Namespace.findPipe_eq hp, ok_bind]
  split
  · exact Ends.ok (.refused h _)
  · rename_i i hi
    obtain ⟨x, hx⟩ := listeningInstance_some hi
    rw [Namespace.findInstance_eq hx]
    have hintact := h.intact i x hx
    refine (withinInstance_ends (npfsAttachClient_intact _ _ _ _ hintact)).bind ?_
    rintro ⟨body, status⟩ ⟨hbody, ⟨hstatus, -⟩ | ⟨hstatus, hkept, hsub⟩⟩
    · exact Ends.ite (fun _ => Ends.ok (.refused h _)) fun hno => absurd hstatus hno
    · refine Ends.ite (fun hno => absurd hstatus hno) fun _ => ?_
      obtain ⟨s', y, heq, hinv, hy, rfl⟩ := attachEnd_spec hkept h hx hbody hp
      rw [heq]
      refine Ends.ok ⟨hinv, fun j e he => ?_⟩
      cases he
      have hconnection : y.body.connection = x.body.connection + 1 := hkept.connection
      refine ⟨y, hy, closable_iff.mpr ⟨?_, fun r hr hfile => ?_⟩⟩
      · rw [hkept.openEnds, hconnection]
        exact mem_cons_self ..
      · have := hintact.members.files r (hsub hr) _ hfile
        omega

theorem openRelative_spec (h : NamespaceInv orderly s) (hx : s.instances i = some x)
    (hhandle : (x.body.ends e).handle = true) (path : PipeName) (call : OpenCall) :
    Ends WithinBytes (openRelative s i e path call) (Opened orderly) := by
  cases e with
  | client n => exact Ends.ok (.refused h _)
  | server =>
    rw [openRelative]
    refine Ends.ite (fun _ => Ends.ok (.refused h _)) fun _ => ?_
    rw [Namespace.findInstance_eq hx]
    have hlinked := (h.intact i x hx).sound.linked
    refine Ends.ite (fun hno => by simp [hlinked.serverPipe] at hno) fun _ => ?_
    have hi : s.serving i = some (x.pipe .server) := by
      rw [serving_of hx, Placed.serving_of_server (hlinked.server hhandle)]
    obtain ⟨pipe, hp⟩ := ne_none_iff_exists'.mp (h.pipes.held _ _ (h.pipes.served i _ hi))
    exact npfsAttachPipe_spec h hp call

theorem npfsFindNamedPipe_mem {name : PipeName} (h : npfsFindNamedPipe s name = some p) :
    p ∈ s.pipeList ∧ ∃ pipe, s.pipes p = some pipe ∧ equalNames pipe.name name = true := by
  have hfound := find?_some h
  refine ⟨mem_of_find?_eq_some h, ?_⟩
  split at hfound
  · rename_i pipe hp
    exact ⟨pipe, hp, hfound⟩
  · cases hfound

theorem openNamed_spec (h : NamespaceInv orderly s) (path : PipeName) (call : OpenCall) :
    Ends WithinBytes (openNamed s path call) (Opened orderly) := by
  rw [openNamed]
  refine Ends.ite (fun _ => Ends.ok (.refused h _)) fun _ => ?_
  split
  · exact Ends.ok (.refused h _)
  · rename_i p hp
    obtain ⟨-, pipe, hpipe, -⟩ := npfsFindNamedPipe_mem hp
    exact npfsAttachPipe_spec h hpipe call

theorem npfsVfsCreate_spec {call : OpenCall} (h : NamespaceInv orderly s)
    (hop : (NamespaceOp.openFile call).Enabled s) : Ends WithinBytes (npfsVfsCreate s call) (Opened orderly) := by
  rw [npfsVfsCreate]
  rw [NamespaceOp.Enabled] at hop
  cases hroot : call.root with
  | fileEnd i e =>
    rw [hroot] at hop
    obtain ⟨x, hx, -, hhandle⟩ := hop
    exact openRelative_spec h hx hhandle _ call
  | device => exact Ends.ok (.refused h _)
  | directory => exact Ends.ite (fun _ => Ends.ok (.refused h _)) fun _ => openNamed_spec h _ call
  | none => exact Ends.ite (fun _ => Ends.ok (.refused h _)) fun _ => openNamed_spec h _ call

theorem iopCreateFile_spec {call : OpenCall} (h : NamespaceInv orderly s)
    (hop : (NamespaceOp.openFile call).Enabled s) :
    Ends WithinBytes (iopCreateFile s call) fun r => NamespaceInv orderly r.1 := by
  rw [iopCreateFile]
  refine (npfsVfsCreate_spec h hop).bind ?_
  rintro ⟨s1, status, fsContext⟩ ⟨hinv, hopened⟩
  refine Ends.ite (fun _ => Ends.ok hinv) fun _ => Ends.ite (fun _ => Ends.ok hinv) fun _ => ?_
  cases hcontext : fsContext with
  | none => exact Ends.ok hinv
  | some k =>
    obtain ⟨i, e⟩ := k
    obtain ⟨x, hx, hclosable⟩ := hopened i e hcontext
    refine (npfsCleanupEnd_spec hinv hx).bind fun s2 hs2 => ?_
    obtain ⟨hinv2, y, hy, hkept, hsub⟩ := hs2
    obtain ⟨-, hopen, -⟩ := leave_frame x.body e
    refine (npfsCloseEnd_spec hinv2 hy ?_).bind fun s3 hs3 => Ends.ok hs3
    rw [closable_iff] at hclosable ⊢
    rw [hkept.openEnds, hopen]
    exact ⟨hclosable.1, fun r hr => hclosable.2 r (hsub hr)⟩

/-! ## Creating -/

theorem NamespaceInv.restored (h : NamespaceInv orderly s) (ht : PlacesInv orderly t) (hinstances : t.instances = s.instances)
    (hpipes : t.pipes = s.pipes) (hlist : t.pipeList = s.pipeList) : NamespaceInv orderly t where
  toPlacesInv := ht
  pipes := by
    have hholding : t.holding = s.holding := by
      funext k
      rw [Namespace.holding, Namespace.holding, hinstances]
    have hserving : t.serving = s.serving := by
      funext j
      rw [Namespace.serving, Namespace.serving, hinstances]
    rw [hholding, hserving, hpipes, hlist]
    exact h.pipes

section
variable (h : PlacesInv orderly s)
include h

theorem PlacesInv.placed_fresh : Resource.placed s.nextInstance ∉ s.allocated :=
  fun hmem => absurd (h.known _ hmem) (lt_irrefl _)

theorem PlacesInv.pipe_fresh : Resource.pipe s.nextPipe ∉ s.allocated :=
  fun hmem => absurd (h.known _ hmem) (lt_irrefl _)

theorem PlacesInv.passInstance :
    PlacesInv orderly ((takeInstance s).free (.placed s.nextInstance)) where
  intact := h.intact
  endCount := h.endCount
  balanced := (h.balanced.pass h.placed_fresh).congr fun r => by cases r <;> rfl
  known r hr := by
    rcases mem_cons.mp hr with rfl | hr
    · exact Nat.lt_succ_self _
    · exact Known.mono (h.known r hr) (le_refl _) (Nat.le_succ _) fun j y _ hy => ⟨y, hy, le_refl _⟩

theorem PlacesInv.passPipe : PlacesInv orderly ((takePipe s).free (.pipe s.nextPipe)) where
  intact := h.intact
  endCount := h.endCount
  balanced := (h.balanced.pass h.pipe_fresh).congr fun r => by cases r <;> rfl
  known r hr := by
    rcases mem_cons.mp hr with rfl | hr
    · exact Nat.lt_succ_self _
    · exact Known.mono (h.known r hr) (Nat.le_succ _) (le_refl _) fun j y _ hy => ⟨y, hy, le_refl _⟩

theorem PlacesInv.mintPipe (call : CreateCall) : PlacesInv orderly (mintPipe s call) where
  intact := h.intact
  endCount := h.endCount
  balanced := by
    refine h.balanced.allocate h.pipe_fresh fun r => ?_
    cases r with
    | pipe q =>
      simp only [Namespace.Live, Npfs.mintPipe, takePipe, Namespace.setPipe, Namespace.allocate,
        update_apply]
      split
      · rename_i hq
        exact iff_of_true nofun (.inr (by rw [hq]))
      · rename_i hq
        exact (or_iff_left fun heq => hq (by cases heq; rfl)).symm
    | placed | fileEnd => exact (or_iff_left nofun).symm
  known r hr := by
    rcases mem_cons.mp hr with rfl | hr
    · exact Nat.lt_succ_self _
    · exact Known.mono (h.known r hr) (Nat.le_succ _) (le_refl _) fun j y _ hy => ⟨y, hy, le_refl _⟩

theorem undoPipe_created (hp : s.pipes p = some pipe) (href : pipe.refCount = 0)
    (hcount : pipe.instanceCount = 0) : ∃ t, undoPipe s p true = .ok t ∧ PlacesInv orderly t ∧
      t.instances = s.instances ∧ t.pipes = update s.pipes p none ∧
      t.pipeList = (s.pipeList.erase p).erase p := by
  let s1 : Namespace := { s.setPipe p { pipe with name := [] } with pipeList := s.pipeList.erase p }
  have hset : s1.pipes p = some { pipe with name := [] } := update_self ..
  obtain ⟨hlive, hfreed⟩ := live_dropPipe hset
  have hbalanced : Balanced s1.Live s.allocated s.freed :=
    h.balanced.congr fun r => live_setPipe hp { pipe with name := [] }
  refine ⟨s1.dropPipe p, ?_, h.of_same ⟨rfl, rfl, rfl, rfl⟩ (hbalanced.free hlive hfreed), rfl,
    update_idem .., rfl⟩
  rw [undoPipe, Namespace.findPipe_eq hp]
  show (if true = true ∧ pipe.instanceCount = 0 then _ else _) = _
  rw [if_pos ⟨rfl, hcount⟩, npfsUnlinkPipe, Namespace.findPipe_eq hp]
  show (if pipe.instanceCount ≠ 0 then _ else if pipe.refCount = 0 then npfsFreePipe s1 p else _) = _
  rw [if_neg (not_not.mpr hcount), if_pos href]
  exact npfsFreePipe_eq hset hcount href

end

theorem undoPipe_found (hp : s.pipes p = some pipe) : undoPipe s p false = .ok s := by
  rw [undoPipe, Namespace.findPipe_eq hp]
  show (if false = true ∧ pipe.instanceCount = 0 then npfsUnlinkPipe s p else .ok s) = _
  exact if_neg fun h => Bool.false_ne_true h.1

theorem CreateCall.initial (call : CreateCall) (pipe : Pipe) : Initial (call.instance pipe) where
  state := rfl
  serverEnd := rfl
  clientEnd := rfl
  queue d := by
    have hne {q : UInt32} (hq : q ≠ 0) : q.toNat ≠ 0 := fun h => hq (UInt32.toNat_inj.mp h)
    cases d with
    | inbound => exact ⟨rfl, rfl, rfl, hne pipe.inQuota_ne⟩
    | outbound => exact ⟨rfl, rfl, rfl, hne pipe.outQuota_ne⟩
  server := ⟨rfl, rfl⟩
  clients _ := rfl
  openEnds := rfl
  pendingReads := rfl
  pendingListens := rfl
  parked := rfl
  connection := rfl
  requests := rfl
  trace := rfl

def placedBy (call : CreateCall) (pipe : Pipe) (p : Nat) : Placed := ⟨call.instance pipe, fun _ => p, 1⟩

theorem placeInstance_instances (s : Namespace) (p : Nat) (pipe : Pipe) (call : CreateCall) :
    (placeInstance s p pipe call).instances =
      update s.instances s.nextInstance (some (placedBy call pipe p)) := rfl

theorem PlacesInv.placeInstance (h : PlacesInv orderly s) (hp : s.pipes p = some pipe) (call : CreateCall) :
    PlacesInv orderly (placeInstance s p pipe call) where
  intact j y hy := by
    rw [placeInstance_instances, update_apply] at hy
    split at hy
    · cases hy
      exact (call.initial pipe).intact
    · exact h.intact j y hy
  endCount j y hy := by
    rw [placeInstance_instances, update_apply] at hy
    split at hy
    · cases hy
      exact ⟨rfl, nofun⟩
    · exact h.endCount j y hy
  balanced := by
    have hend : Resource.fileEnd s.nextInstance .server ∉ Resource.placed s.nextInstance :: s.allocated := by
      refine not_mem_cons_of_ne_of_not_mem nofun fun hmem => ?_
      exact absurd (h.known _ hmem).1 (lt_irrefl _)
    have hfirst : Balanced (fun r => s.Live r ∨ r = .placed s.nextInstance)
        (.placed s.nextInstance :: s.allocated) s.freed :=
      h.balanced.allocate h.placed_fresh fun _ => Iff.rfl
    refine hfirst.allocate hend fun r => ?_
    cases r with
    | pipe q =>
      refine Iff.trans ?_ (or_iff_left nofun).symm
      refine Iff.trans ?_ (or_iff_left nofun).symm
      exact live_setPipe (s := (takeInstance s).setInstance s.nextInstance (placedBy call pipe p))
        (r := .pipe q) hp (pipe.entered s.nextInstance)
    | placed j =>
      rw [Namespace.Live, placeInstance_instances, update_apply]
      split
      · rename_i hj
        exact iff_of_true nofun (.inl (.inr (by rw [hj])))
      · rename_i hj
        refine ⟨fun hl => .inl (.inl hl), fun hl => ?_⟩
        rcases hl with (hl | heq) | heq
        · exact hl
        · cases heq
          exact absurd rfl hj
        · cases heq
    | fileEnd j e =>
      rw [Namespace.Live, placeInstance_instances, update_apply]
      split
      · rename_i hj
        subst hj
        constructor
        · rintro ⟨y, hy, he⟩
          cases hy
          obtain rfl : e = .server := mem_singleton.mp he
          exact .inr rfl
        · rintro ((⟨y, hy, -⟩ | heq) | heq)
          · rw [h.instance_none] at hy
            cases hy
          · cases heq
          · cases heq
            exact ⟨_, rfl, mem_singleton_self _⟩
      · rename_i hj
        refine ⟨fun hl => .inl (.inl hl), fun hl => ?_⟩
        rcases hl with (hl | heq) | heq
        · exact hl
        · cases heq
        · cases heq
          exact absurd rfl hj
  known r hr := by
    rcases mem_cons.mp hr with rfl | hr
    · exact ⟨Nat.lt_succ_self _, nofun⟩
    · rcases mem_cons.mp hr with rfl | hr
      · exact Nat.lt_succ_self _
      · refine Known.mono (h.known r hr) (le_refl _) (Nat.le_succ _) fun j y hj hy => ?_
        rw [placeInstance_instances, update_of_ne hj.ne] at hy
        exact ⟨y, hy, le_refl _⟩

theorem placeInstance_holding (h : PlacesInv orderly s) (p : Nat) (pipe : Pipe) (call : CreateCall) :
    s.holding (s.nextInstance, .server) = none ∧ s.serving s.nextInstance = none ∧
      (placeInstance s p pipe call).holding =
        update s.holding (s.nextInstance, .server) (some p) ∧
      (placeInstance s p pipe call).serving = update s.serving s.nextInstance (some p) := by
  have hnone := h.instance_none
  have hholding (e : EndId) : s.holding (s.nextInstance, e) = none := by
    rw [Namespace.holding, hnone]
    rfl
  have hserving : s.serving s.nextInstance = none := by
    rw [Namespace.serving, hnone]
    rfl
  refine ⟨hholding _, hserving, funext fun k => ?_, funext fun j => ?_⟩
  · rw [Namespace.holding, placeInstance_instances, update_apply, update_apply]
    by_cases hk : k.1 = s.nextInstance
    · rw [if_pos hk]
      split
      · rename_i heq
        rw [heq]
        rfl
      · rename_i hne
        rw [show k = (s.nextInstance, k.2) from Prod.ext hk rfl, hholding]
        refine if_neg fun hboth => hne (Prod.ext hk ?_)
        exact mem_singleton.mp hboth.1
    · rw [if_neg hk, if_neg fun heq => hk (by rw [heq])]
      rfl
  · rw [Namespace.serving, placeInstance_instances, update_apply, update_apply]
    split
    · rfl
    · rfl

theorem undoInstance_spec (h : PlacesInv orderly s) (hp : s.pipes p = some pipe)
    (hnot : s.nextInstance ∉ pipe.instanceList) (hzero : pipe.refCount = 0 → pipe.instanceCount = 0)
    (call : CreateCall) : ∃ t, undoInstance (placeInstance s p pipe call) p s.nextInstance = .ok t ∧
      PlacesInv orderly t ∧ t.instances = s.instances ∧
      if pipe.refCount = 0 then t.pipes = update s.pipes p none ∧ t.pipeList = s.pipeList.erase p
      else t.pipes = s.pipes ∧ t.pipeList = s.pipeList := by
  have hplaces := h.placeInstance hp call
  have hset : (placeInstance s p pipe call).pipes p = some (pipe.entered s.nextInstance) :=
    update_self ..
  have hleft : (pipe.instanceList ++ [s.nextInstance]).erase s.nextInstance = pipe.instanceList := by
    rw [erase_append_right _ hnot, erase_cons_head, append_nil]
  let held : Pipe := { pipe with refCount := pipe.refCount + 1 }
  let s1 := (placeInstance s p pipe call).setPipe p held
  have hs1 : PlacesInv orderly s1 := hplaces.of_same ⟨rfl, rfl, rfl, rfl⟩
    (hplaces.balanced.congr fun r => live_setPipe hset held)
  have hleave : leavePipe (placeInstance s p pipe call) p s.nextInstance = .ok s1 := by
    rw [leavePipe_eq hset (Nat.succ_ne_zero _)]
    simp [Pipe.entered, hleft, s1, held]
  have hheld : s1.pipes p = some held := update_self ..
  have hinstance {t : Namespace} (heq : t.instances = s1.instances) :
      t.instances s.nextInstance = some (placedBy call pipe p) := by
    rw [heq]
    exact update_self ..
  have hback {t : Namespace} (heq : t.instances = s1.instances) :
      (t.dropInstance s.nextInstance .server).instances = s.instances := by
    show update t.instances s.nextInstance none = s.instances
    rw [heq]
    show update (update s.instances s.nextInstance _) s.nextInstance none = s.instances
    rw [update_idem, ← h.instance_none, update_eq_self]
  have hpipes (v : Option Pipe) : update s1.pipes p v = update s.pipes p v := by
    show update (update (update s.pipes p _) p _) p v = _
    rw [update_idem, update_idem]
  have hdropped : held.dropped = pipe := rfl
  have hone : held.refCount = 1 ↔ pipe.refCount = 0 := Nat.succ_inj
  have hdereference := npfsDereferencePipe_eq hheld (Nat.succ_ne_zero _) fun h => hzero (hone.mp h)
  simp only [hdropped, hone] at hdereference
  have hbalanced : Balanced (s1.setPipe p pipe).Live s1.allocated s1.freed :=
    hs1.balanced.congr fun r => live_setPipe hheld pipe
  rw [undoInstance, hleave]
  show ∃ t, (npfsDereferencePipe s1 p >>= _) = _ ∧ _
  rw [hdereference]
  by_cases href : pipe.refCount = 0
  · rw [if_pos href]
    have hset1 : (s1.setPipe p pipe).pipes p = some pipe := update_self ..
    obtain ⟨hlive, hfreed⟩ := live_dropPipe hset1
    have ht : PlacesInv orderly ((s1.setPipe p pipe).dropPipe p) :=
      hs1.of_same ⟨rfl, rfl, rfl, rfl⟩ (hbalanced.free hlive hfreed)
    refine ⟨((s1.setPipe p pipe).dropPipe p).dropInstance s.nextInstance .server, rfl,
      ht.dropInstance (hinstance rfl) rfl, hback rfl, ?_⟩
    rw [if_pos href]
    refine ⟨?_, rfl⟩
    show update (update s1.pipes p _) p none = _
    rw [update_idem, hpipes]
  · rw [if_neg href]
    have ht : PlacesInv orderly (s1.setPipe p pipe) := hs1.of_same ⟨rfl, rfl, rfl, rfl⟩ hbalanced
    refine ⟨(s1.setPipe p pipe).dropInstance s.nextInstance .server, rfl,
      ht.dropInstance (hinstance rfl) rfl, hback rfl, ?_⟩
    rw [if_neg href]
    refine ⟨?_, rfl⟩
    show update s1.pipes p (some pipe) = s.pipes
    rw [hpipes, ← hp, update_eq_self]

theorem placedBy_closable (call : CreateCall) (pipe : Pipe) (p : Nat) :
    Closable (placedBy call pipe p).body .server :=
  closable_iff.mpr ⟨mem_singleton_self _, fun _ hr => nomatch hr⟩

theorem finishCreate_spec (hplaced : NamespaceInv orderly (placeInstance s p pipe call))
    (hundo : ∃ t, undoInstance (placeInstance s p pipe call) p s.nextInstance = .ok t ∧ NamespaceInv orderly t) :
    Ends WithinBytes
      (if !ntSuccess call.file then do
        let s ← undoInstance (placeInstance s p pipe call) p s.nextInstance
        .ok (s, call.file)
      else if !ntSuccess call.handle then do
        let s ← npfsCloseEnd (placeInstance s p pipe call) s.nextInstance .server
        .ok (s, call.handle)
      else .ok (placeInstance s p pipe call, statusSuccess)) fun r => NamespaceInv orderly r.1 := by
  refine Ends.ite (fun _ => ?_) fun _ => Ends.ite (fun _ => ?_) fun _ => Ends.ok hplaced
  · obtain ⟨t, heq, ht⟩ := hundo
    rw [heq]
    exact Ends.ok ht
  · have hx : (placeInstance s p pipe call).instances s.nextInstance = some (placedBy call pipe p) :=
      update_self ..
    exact (npfsCloseEnd_spec hplaced hx (placedBy_closable call pipe p)).bind fun t ht => Ends.ok ht

theorem openPipe_spec (h : NamespaceInv orderly s) (hlist : p ∈ s.pipeList) (call : CreateCall) :
    Ends WithinBytes (openPipe s p call) fun r => NamespaceInv orderly r.1 := by
  obtain ⟨pipe, hp⟩ := ne_none_iff_exists'.mp (h.pipes.live p hlist)
  have hpipe := h.pipes.pipe p pipe hp
  have hcount : pipe.instanceCount ≠ 0 := (hpipe.name_ne.mp (hpipe.listed.mp hlist)).2
  rw [openPipe, Namespace.findPipe_eq hp]
  refine Ends.ite (fun _ => Ends.ok h) fun hroom => Ends.ite (fun _ => Ends.ok h) fun _ => ?_
  rw [addInstance, Namespace.findPipe_eq hp]
  obtain ⟨hk, hi, hholding, hserving⟩ := placeInstance_holding h.toPlacesInv p pipe call
  refine Ends.ite (fun _ => ?_) fun _ => Ends.ite (fun _ => ?_) fun _ => finishCreate_spec ?_ ?_
  · rw [undoPipe_found hp]
    exact Ends.ok h
  · have hpass : undoPipe ((takeInstance s).free (.placed s.nextInstance)) p false =
        .ok ((takeInstance s).free (.placed s.nextInstance)) := undoPipe_found hp
    rw [hpass]
    exact Ends.ok (h.restored h.passInstance rfl rfl rfl)
  · refine ⟨h.placeInstance hp call, ?_⟩
    rw [hholding, hserving]
    exact h.pipes.enter hp hk hi hcount (not_le.mp hroom)
  · have hnot : s.nextInstance ∉ pipe.instanceList := by
      rw [hpipe.members, hi]
      nofun
    obtain ⟨t, heq, ht, hinstances, hrest⟩ := undoInstance_spec h.toPlacesInv hp hnot
      (fun href => absurd href hpipe.referenced) call
    rw [if_neg hpipe.referenced] at hrest
    exact ⟨t, heq, h.restored ht hinstances hrest.1 hrest.2⟩

theorem npfsFindNamedPipe_none {name : PipeName} (h : npfsFindNamedPipe s name = none) :
    ∀ q ∈ s.pipeList, ∀ a, s.pipes q = some a → equalNames a.name name = false := by
  intro q hq a ha
  have hnot := find?_eq_none.mp h q hq
  rw [ha] at hnot
  exact Bool.eq_false_iff.mpr hnot

theorem mintPipe_back (h : NamespaceInv orderly s) (call : CreateCall) :
    update (mintPipe s call).pipes s.nextPipe none = s.pipes ∧
      (mintPipe s call).pipeList.erase s.nextPipe = s.pipeList ∧
      s.pipeList.erase s.nextPipe = s.pipeList := by
  have hnone := h.pipe_none
  have hnot : s.nextPipe ∉ s.pipeList := fun hmem => h.pipes.live _ hmem hnone
  refine ⟨?_, ?_, erase_of_not_mem hnot⟩
  · show update (update s.pipes s.nextPipe _) s.nextPipe none = s.pipes
    rw [update_idem, ← hnone, update_eq_self]
  · show (if call.name = [] then s.pipeList else s.pipeList ++ [s.nextPipe]).erase s.nextPipe = s.pipeList
    split
    · exact erase_of_not_mem hnot
    · rw [erase_append_right _ hnot, erase_cons_head, append_nil]

variable {call : CreateCall}

theorem mint_placed (h : NamespaceInv orderly s) (hmax : call.maxInstances ≠ 0)
    (hfind : call.name ≠ [] → npfsFindNamedPipe s call.name = none) :
    NamespaceInv orderly (placeInstance (mintPipe s call) s.nextPipe call.pipe call) := by
  have hm : PlacesInv orderly (mintPipe s call) := h.toPlacesInv.mintPipe call
  have hp : (mintPipe s call).pipes s.nextPipe = some call.pipe := update_self ..
  obtain ⟨hk, hi, hholding, hserving⟩ := placeInstance_holding hm s.nextPipe call.pipe call
  refine ⟨hm.placeInstance hp call, ?_⟩
  have hpipes : (placeInstance (mintPipe s call) s.nextPipe call.pipe call).pipes =
      update s.pipes s.nextPipe (some (call.pipe.entered s.nextInstance)) :=
    update_idem ..
  rw [hholding, hserving, hpipes]
  exact h.pipes.mint h.pipe_none hk hi rfl rfl rfl rfl hmax fun hne =>
    npfsFindNamedPipe_none (hfind hne)

theorem undoMint_spec (h : NamespaceInv orderly s) (ht : PlacesInv orderly t)
    (hinstances : t.instances = s.instances) (hpipes : t.pipes = (mintPipe s call).pipes)
    (hlist : t.pipeList = (mintPipe s call).pipeList) :
    ∃ u, undoPipe t s.nextPipe true = .ok u ∧ NamespaceInv orderly u := by
  obtain ⟨hback, hlist1, hlist2⟩ := mintPipe_back h call
  have hp : t.pipes s.nextPipe = some call.pipe := by
    rw [hpipes]
    exact update_self ..
  obtain ⟨u, heq, hu, hinstances', hpipes', hlist'⟩ := undoPipe_created ht hp rfl rfl
  refine ⟨u, heq, h.restored hu (hinstances'.trans hinstances) ?_ ?_⟩
  · rw [hpipes', hpipes, hback]
  · rw [hlist', hlist, hlist1, hlist2]

theorem addInstance_mint (h : NamespaceInv orderly s) (pool : Nat)
    (hmax : call.maxInstances ≠ 0) (hfind : call.name ≠ [] → npfsFindNamedPipe s call.name = none) :
    Ends WithinBytes (addInstance (mintPipe s call) s.nextPipe true pool call)
      fun r => NamespaceInv orderly r.1 := by
  have hm : PlacesInv orderly (mintPipe s call) := h.toPlacesInv.mintPipe call
  have hp : (mintPipe s call).pipes s.nextPipe = some call.pipe := update_self ..
  rw [addInstance, Namespace.findPipe_eq hp]
  refine Ends.ite (fun _ => ?_) fun _ => Ends.ite (fun _ => ?_) fun _ =>
    finishCreate_spec (mint_placed h hmax hfind) ?_
  · obtain ⟨u, heq, hu⟩ := undoMint_spec h hm rfl rfl rfl
    rw [heq]
    exact Ends.ok hu
  · obtain ⟨u, heq, hu⟩ := undoMint_spec h hm.passInstance rfl rfl rfl
    rw [heq]
    exact Ends.ok hu
  · obtain ⟨hback, hlist, -⟩ := mintPipe_back h call
    obtain ⟨t, heq, ht, hinstances, hrest⟩ := undoInstance_spec hm hp (by exact not_mem_nil)
      (fun _ => rfl) call
    have hrest := (if_pos (rfl : call.pipe.refCount = 0)).mp hrest
    exact ⟨t, heq, h.restored ht hinstances (hrest.1.trans hback) (hrest.2.trans hlist)⟩

theorem createPipe_spec (h : NamespaceInv orderly s) (hmax : call.maxInstances ≠ 0)
    (hfind : call.name ≠ [] → npfsFindNamedPipe s call.name = none) :
    Ends WithinBytes (createPipe s call) fun r => NamespaceInv orderly r.1 := by
  rw [createPipe]
  refine Ends.ite (fun _ => Ends.ok h) fun _ => Ends.ite (fun _ => ?_) fun _ => ?_
  · exact Ends.ok (h.restored h.passPipe rfl rfl rfl)
  split
  · exact addInstance_mint h _ hmax hfind
  · refine Ends.ite (fun _ => addInstance_mint h _ hmax hfind) fun _ => ?_
    obtain ⟨u, heq, hu⟩ := undoMint_spec h (h.toPlacesInv.mintPipe call) rfl rfl rfl
    rw [heq]
    exact Ends.ok hu

theorem CreateCall.maxInstances_ne (h : call.refused = none) :
    call.maxInstances ≠ 0 := by
  rw [CreateCall.refused] at h
  repeat' split at h
  all_goals first | assumption | cases h

theorem ntCreateNamedPipeFile_spec (h : NamespaceInv orderly s) (call : CreateCall) :
    Ends WithinBytes (ntCreateNamedPipeFile s call) fun r => NamespaceInv orderly r.1 := by
  rw [ntCreateNamedPipeFile]
  split
  · exact Ends.ok h
  rename_i hrefused
  split
  · rename_i p hp
    split at hp
    · cases hp
    · exact openPipe_spec h (npfsFindNamedPipe_mem hp).1 call
  · rename_i hnone
    refine Ends.ite (fun _ => Ends.ok h) fun _ =>
      createPipe_spec h (CreateCall.maxInstances_ne hrefused) fun hne => ?_
    rwa [if_neg hne] at hnone

theorem namespaceStep_spec {op : NamespaceOp} (h : NamespaceInv orderly s) (hop : op.Enabled s)
    (horderly : orderly → op.Orderly s) :
    Ends WithinBytes (namespaceStep op s) (NamespaceInv orderly) := by
  cases op with
  | create call => exact (ntCreateNamedPipeFile_spec h call).map fun _ hr => hr
  | openFile call => exact (iopCreateFile_spec h hop).map fun _ hr => hr
  | within i op =>
    cases op with
    | attach => exact absurd hop id
    | disconnect e =>
      obtain ⟨x, hx, -⟩ := hop
      exact npfsDisconnectEnd_spec h hx
    | cleanup e =>
      obtain ⟨x, hx, -⟩ := hop
      exact (npfsCleanupEnd_spec h hx).mono fun _ hs => hs.1
    | close e =>
      obtain ⟨x, hx, hclosable⟩ := hop
      exact npfsCloseEnd_spec h hx hclosable
    | read | write | transceive | flush | listen | peek | setPipeInfo | cancel | resume | interrupt =>
      obtain ⟨x, hx, hop⟩ := hop
      exact requestWithin_spec h hx hop (fun h' => horderly h' x hx) id

theorem NamespaceInv.initial : NamespaceInv orderly {} where
  intact _ _ h := nomatch h
  endCount _ _ h := nomatch h
  balanced := ⟨nodup_nil, nodup_nil, nofun, fun r => by
    refine iff_of_false not_mem_nil fun hl => hl.elim (fun hl => ?_) not_mem_nil
    cases r with
    | pipe | placed => exact hl rfl
    | fileEnd =>
      obtain ⟨_, hx, -⟩ := hl
      cases hx⟩
  known _ h := nomatch h
  pipes := ⟨nodup_nil, nofun, nofun, fun _ _ h => (nomatch h), fun _ _ h => (nomatch h),
    fun _ _ h => (nomatch h)⟩

theorem NamespaceRun.inv (h : NamespaceRun orderly s) : NamespaceInv orderly s := by
  induction h with
  | initial => exact .initial
  | step _ hop horderly hstep ih => exact (namespaceStep_spec ih hop horderly).of_ok hstep

/-! ## The lifetimes -/

/-- The lifetimes of pipes, instances and ends. An end is live until its file is closed. -/
structure Lifetimes (s : Namespace) : Prop where
  /-- A pipe is found by its name while it is named and has an instance. -/
  findable : ∀ name p, npfsFindNamedPipe s name = some p ↔ ∃ pipe, s.pipes p = some pipe ∧
    pipe.created ≠ [] ∧ pipe.instanceCount ≠ 0 ∧ equalNames pipe.created name = true
  /-- No two pipes that can be found have equal names. -/
  distinct : ∀ p q a b name name', npfsFindNamedPipe s name = some p →
    npfsFindNamedPipe s name' = some q → s.pipes p = some a → s.pipes q = some b →
    equalNames a.created b.created = true → p = q
  /-- `instanceCount` is the number of instances with a live server end. -/
  instances : ∀ p pipe, s.pipes p = some pipe →
    Counted s.serving p pipe.instanceCount ∧ pipe.instanceCount ≤ pipe.maxInstances.toNat
  /-- `refCount` is the number of ends that hold the pipe. -/
  references : ∀ p pipe, s.pipes p = some pipe → Counted s.holding p pipe.refCount
  /-- `endCount` is the number of live ends. -/
  ends : ∀ i x, s.instances i = some x → x.body.openEnds.Nodup ∧ x.endCount = x.body.openEnds.length
  /-- Nothing is allocated twice, and what was allocated is live or was freed once. -/
  freed : s.allocated.Nodup ∧ ∀ r, (r ∈ s.freed → r ∈ s.allocated) ∧ (r ∈ s.allocated →
    (s.Live r → s.freed.count r = 0) ∧ (¬ s.Live r → s.freed.count r = 1))
  /-- A live pipe is held by a live end, and a live instance has one. -/
  needed : (∀ p, s.Live (.pipe p) → ∃ i e, s.holding (i, e) = some p ∧ s.Live (.fileEnd i e)) ∧
    ∀ i, s.Live (.placed i) → ∃ e, s.Live (.fileEnd i e)
  /-- A request that was left pending is on a live end whose handle is open. -/
  pending : ∀ i x, s.instances i = some x → ∀ r ∈ x.body.pendingReads ++ x.body.pendingListens,
    r.file ∈ x.body.openEnds ∧ (x.body.ends r.file).handle = true

/-- A thread that waits does not outlive its handle. -/
structure HandleBound (s : Namespace) : Prop where
  /-- A thread waits on a live end, and once the handle is closed its wait is over. -/
  waiting : ∀ i x, s.instances i = some x → ∀ p ∈ x.body.parked, p.request.file ∈ x.body.openEnds ∧
    ((x.body.ends p.request.file).handle = true ∨ p.woken = true)
  /-- A thread that runs for a closed handle is answered. -/
  answered : ∀ i x, s.instances i = some x → ∀ p ∈ x.body.parked,
    (x.body.ends p.request.file).handle = false → ∀ pool prepare,
    (NamespaceOp.within i (.resume p pool prepare)).Orderly s → ∀ s',
    namespaceStep (.within i (.resume p pool prepare)) s = .ok s' → ∃ x' c mode result,
      s'.instances i = some x' ∧
      x'.body.parked.map Park.request = (x.body.parked.erase p).map Park.request ∧
      x'.body.trace.head? = some (.completed p.request c mode result)
  /-- An end whose handle is closed can be freed once no thread waits on it. -/
  closable : ∀ i x, s.instances i = some x → ∀ e ∈ x.body.openEnds, (x.body.ends e).handle = false →
    (∀ p ∈ x.body.parked, p.request.file ≠ e) → Closable x.body e

section
variable (h : NamespaceInv orderly s)
include h

theorem NamespaceInv.found_iff (name : PipeName) (p : Nat) :
    npfsFindNamedPipe s name = some p ↔
      p ∈ s.pipeList ∧ ∃ pipe, s.pipes p = some pipe ∧ equalNames pipe.name name = true := by
  refine ⟨npfsFindNamedPipe_mem, ?_⟩
  rintro ⟨hmem, pipe, hp, heq⟩
  cases hfound : npfsFindNamedPipe s name with
  | none =>
    rw [npfsFindNamedPipe_none hfound p hmem pipe hp] at heq
    cases heq
  | some q =>
    obtain ⟨hq, a, ha, heq'⟩ := npfsFindNamedPipe_mem hfound
    rw [equalNames_iff] at heq heq'
    rw [h.pipes.distinct q hq p hmem a pipe ha hp (equalNames_iff.mpr (heq'.trans heq.symm))]

theorem NamespaceInv.listed_iff (hp : s.pipes p = some pipe) :
    (p ∈ s.pipeList ↔ pipe.created ≠ [] ∧ pipe.instanceCount ≠ 0) ∧
      (p ∈ s.pipeList → pipe.name = pipe.created) := by
  have hpipe := h.pipes.pipe p pipe hp
  refine ⟨hpipe.listed.trans hpipe.name_ne, fun hmem => ?_⟩
  rw [hpipe.name, if_neg (hpipe.name_ne.mp (hpipe.listed.mp hmem)).2]

theorem NamespaceInv.findable (name : PipeName) (p : Nat) :
    npfsFindNamedPipe s name = some p ↔ ∃ pipe, s.pipes p = some pipe ∧
      pipe.created ≠ [] ∧ pipe.instanceCount ≠ 0 ∧ equalNames pipe.created name = true := by
  rw [h.found_iff]
  constructor
  · rintro ⟨hmem, pipe, hp, heq⟩
    obtain ⟨hlisted, hname⟩ := h.listed_iff hp
    rw [hname hmem] at heq
    exact ⟨pipe, hp, (hlisted.mp hmem).1, (hlisted.mp hmem).2, heq⟩
  · rintro ⟨pipe, hp, hcreated, hcount, heq⟩
    obtain ⟨hlisted, hname⟩ := h.listed_iff hp
    have hmem := hlisted.mpr ⟨hcreated, hcount⟩
    exact ⟨hmem, pipe, hp, by rwa [hname hmem]⟩

theorem NamespaceInv.held_by (hp : s.pipes p = some pipe) :
    ∃ i e, s.holding (i, e) = some p ∧ s.Live (.fileEnd i e) := by
  have hpipe := h.pipes.pipe p pipe hp
  obtain ⟨l, -, hlength, hmem⟩ := hpipe.references
  have hne : l ≠ [] := by
    rintro rfl
    exact hpipe.referenced hlength.symm
  obtain ⟨⟨i, e⟩, hk⟩ := exists_mem_of_ne_nil l hne
  have hk := (hmem _).mp hk
  refine ⟨i, e, hk, ?_⟩
  rw [Namespace.holding, bind_eq_some_iff] at hk
  obtain ⟨x, hx, hk⟩ := hk
  rw [Placed.holding] at hk
  split at hk
  · rename_i hboth
    exact ⟨x, hx, hboth.1⟩
  · cases hk

theorem NamespaceInv.lifetimes : Lifetimes s where
  findable := h.findable
  distinct p q a b name name' hfound hfound' ha hb heq := by
    obtain ⟨hp, -⟩ := (h.found_iff name p).mp hfound
    obtain ⟨hq, -⟩ := (h.found_iff name' q).mp hfound'
    rw [← (h.listed_iff ha).2 hp, ← (h.listed_iff hb).2 hq] at heq
    exact h.pipes.distinct p hp q hq a b ha hb heq
  instances p pipe hp := by
    have hpipe := h.pipes.pipe p pipe hp
    exact ⟨⟨pipe.instanceList, hpipe.nodup, hpipe.count.symm, hpipe.members⟩, hpipe.bounded⟩
  references p pipe hp := (h.pipes.pipe p pipe hp).references
  ends i x hx := ⟨(h.intact i x hx).members.nodup, (h.endCount i x hx).1⟩
  freed := by
    refine ⟨h.balanced.allocatedOnce, fun r => ⟨fun hr => (h.balanced.accounted r).mpr (.inr hr),
      fun hr => ⟨fun hlive => ?_, fun hdead => ?_⟩⟩⟩
    · exact count_eq_zero.mpr fun hmem => h.balanced.dead r hmem hlive
    · exact count_eq_one_of_mem h.balanced.freedOnce
        (((h.balanced.accounted r).mp hr).resolve_left hdead)
  needed := by
    refine ⟨fun p hlive => ?_, fun i hlive => ?_⟩
    · obtain ⟨pipe, hp⟩ := ne_none_iff_exists'.mp hlive
      exact h.held_by hp
    · obtain ⟨x, hx⟩ := ne_none_iff_exists'.mp hlive
      obtain ⟨hcount, hpos⟩ := h.endCount i x hx
      obtain ⟨e, he⟩ := exists_mem_of_ne_nil x.body.openEnds fun hnil => hpos (by rw [hcount, hnil]; rfl)
      exact ⟨e, x, hx, he⟩
  pending i x hx _ hr := (h.intact i x hx).handle_of_pending hr

theorem NamespaceInv.drained (hclosed : ∀ i e, ¬ s.Live (.fileEnd i e)) :
    s.allocated.Perm s.freed := by
  obtain ⟨hpipes, hplaced⟩ := h.lifetimes.needed
  refine h.balanced.perm fun r hlive => ?_
  cases r with
  | pipe p =>
    obtain ⟨i, e, -, hend⟩ := hpipes p hlive
    exact hclosed i e hend
  | placed i =>
    obtain ⟨e, hend⟩ := hplaced i hlive
    exact hclosed i e hend
  | fileEnd i e => exact hclosed i e hlive

end

theorem withinInstance_eq_ok {α : Type} {a : Except Halt α} {b : α} (h : withinInstance a = .ok b) :
    a = .ok b := by
  cases a with
  | ok b' =>
    cases h
    rfl
  | error halt => cases h

theorem requestWithin_eq_ok {op : Op} (hx : s.instances i = some x) (h : requestWithin s i op = .ok s') :
    ∃ body, step op x.body = .ok body ∧ s' = s.setInstance i { x with body } := by
  rw [requestWithin, Namespace.findInstance_eq hx] at h
  obtain ⟨y, hy, h⟩ := bind_eq_ok h
  cases hy
  obtain ⟨body, hbody, h⟩ := bind_eq_ok h
  cases h
  exact ⟨body, withinInstance_eq_ok hbody, rfl⟩

theorem NamespaceInv.bounded (h : NamespaceInv orderly s) (horderly : orderly) : HandleBound s where
  waiting i x hx := ((h.intact i x hx).waits horderly).parked
  answered i x hx p hp hclosed pool prepare hover s' hstep := by
    have hintact := h.intact i x hx
    obtain ⟨body, hbody, rfl⟩ := requestWithin_eq_ok hx hstep
    have hover : p.Over x.body := (hover x hx).resolve_left (by rw [hclosed]; nofun)
    obtain ⟨t, result, rfl, hframe, -⟩ :=
      resume_answered hintact.sound.fitting hp (hintact.pendingOn_closed hclosed) hover hbody
    exact ⟨_, _, _, result, update_self .., hframe.parked, rfl⟩
  closable i x hx e he hclosed hparked := by
    have hopen (r : Request) (hr : r ∈ x.body.pendingReads ++ x.body.pendingListens) : r.file ≠ e := by
      rintro rfl
      have hhandle := ((h.intact i x hx).handle_of_pending hr).2
      rw [hclosed] at hhandle
      cases hhandle
    exact ⟨he, fun r hr => hopen r (mem_append_left _ hr), fun r hr => hopen r (mem_append_right _ hr),
      hparked⟩

theorem NamespaceRun.loosen (h : NamespaceRun orderly s) : NamespaceRun False s := by
  induction h with
  | initial => exact .initial
  | step _ hop _ hstep ih => exact ih.step hop False.elim hstep

/-- In every run the lifetimes hold, no step fails an assertion about them or uses what was freed, and
when every file is closed everything was freed. Where no thread that runs for a closed handle waits on,
no request outlives its handle. -/
theorem namespace_lifetimes (h : NamespaceRun orderly s) : Lifetimes s ∧
    (∀ op, op.Enabled s → ∀ halt, namespaceStep op s = .error halt → WithinBytes halt) ∧
    ((∀ i e, ¬ s.Live (.fileEnd i e)) → s.allocated.Perm s.freed) ∧ (orderly → HandleBound s) :=
  ⟨h.inv.lifetimes,
    fun _ hop _ herror => (namespaceStep_spec h.loosen.inv hop False.elim).of_error herror,
    h.inv.drained, h.inv.bounded⟩

end

/-! ## Runs -/

instance (s : Namespace) (i : Nat) (P : Placed → Prop) [DecidablePred P] :
    Decidable (∃ x, s.instances i = some x ∧ P x) :=
  match h : s.instances i with
  | some x => decidable_of_iff (P x) ⟨fun hx => ⟨x, rfl, hx⟩, fun ⟨_, heq, hx⟩ => by cases heq; exact hx⟩
  | none => .isFalse fun ⟨_, heq, _⟩ => nomatch heq

instance (s : Namespace) (i : Nat) (P : Placed → Prop) [DecidablePred P] :
    Decidable (∀ x, s.instances i = some x → P x) :=
  match h : s.instances i with
  | some x => decidable_of_iff (P x) ⟨fun hx _ heq => by cases heq; exact hx, fun hx => hx x rfl⟩
  | none => .isTrue nofun

instance (s : Namespace) (root : OpenRoot) : Decidable (root.Enabled s) := by
  cases root <;> unfold OpenRoot.Enabled <;> infer_instance

def Op.attaches : Op → Bool
  | .attach .. => true
  | _ => false

theorem NamespaceOp.enabled_within_iff {op : Op} : (NamespaceOp.within i op).Enabled s ↔
    op.attaches = false ∧ ∃ x, s.instances i = some x ∧ op.Enabled x.body := by
  cases op <;> simp [NamespaceOp.Enabled, Op.attaches]

instance (s : Namespace) (op : NamespaceOp) : Decidable (op.Enabled s) :=
  match op with
  | .create _ => .isTrue trivial
  | .openFile call => inferInstanceAs (Decidable (call.root.Enabled s))
  | .within _ _ => decidable_of_iff _ NamespaceOp.enabled_within_iff.symm

instance (s : Namespace) (op : NamespaceOp) : Decidable (op.Orderly s) :=
  match op with
  | .create _ | .openFile _ => .isTrue trivial
  | .within i op => inferInstanceAs (Decidable (∀ x, s.instances i = some x → op.Orderly x.body))

def runNamespace (orderly : Prop) [Decidable orderly] : List NamespaceOp → Namespace → Option Namespace
  | [], s => some s
  | op :: ops, s =>
    if op.Enabled s ∧ (orderly → op.Orderly s) then
      match namespaceStep op s with
      | .ok s' => runNamespace orderly ops s'
      | .error _ => none
    else none

theorem NamespaceRun.ofOps {orderly : Prop} [Decidable orderly] {ops : List NamespaceOp} {s s' : Namespace}
    (hs : NamespaceRun orderly s) (h : runNamespace orderly ops s = some s') : NamespaceRun orderly s' := by
  induction ops generalizing s with
  | nil =>
    cases h
    exact hs
  | cons op ops ih =>
    rw [runNamespace] at h
    split at h
    · rename_i hop
      split at h
      · rename_i hstep
        exact ih (hs.step hop.1 hop.2 hstep) h
      · cases h
    · cases h

/-- A call that makes the pipe `p`. -/
def sampleCreate : CreateCall where
  name := [0x70, 0]
  resolved := statusSuccess
  desiredAccess := genericRead
  sharing := fileShareRead ||| fileShareWrite
  disposition := fileCreate
  synchronousIo := true
  pipeType := 0
  readMode := 0
  completionMode := 0
  maxInstances := 1
  inboundQuota := 0
  outboundQuota := 0
  pool := 4
  capture := none
  file := statusSuccess
  handle := statusSuccess

/-- A call that opens the pipe `p`. -/
def sampleOpen : OpenCall where
  path := some [0x70, 0]
  root := .directory
  disposition := fileOpen
  desiredAccess := genericRead ||| genericWrite
  synchronousIo := true
  pool := 1
  handle := statusSuccess

/-- A read of four bytes on an end waits in the first connection. -/
def sampleRead (e : EndId) (woken : Bool) : Park := ⟨⟨0, e, .read, 4, [], true, 1⟩, .read true, woken⟩

/-- The server waits for a byte of its client and closes its handle. -/
def serverLeaves : List NamespaceOp :=
  [.create sampleCreate, .openFile sampleOpen, .within 0 (.read .server 4 .prepared),
    .within 0 (.cleanup .server)]

/-- Its thread runs, and both ends are closed. -/
def allLeave : List NamespaceOp :=
  [.within 0 (.resume (sampleRead .server true) 0 .prepared), .within 0 (.close .server),
    .within 0 (.cleanup (.client 1)), .within 0 (.close (.client 1))]

theorem namespace_lifetimes_sample :
    (∃ s x, runNamespace True serverLeaves {} = some s ∧ s.instances 0 = some x ∧
      x.body.parked = [sampleRead .server true] ∧ (x.body.ends .server).handle = false ∧
      Lifetimes s ∧ HandleBound s) ∧
    ∃ s, runNamespace True (serverLeaves ++ allLeave) {} = some s ∧ s.freed.length = 4 ∧
      s.allocated.Perm s.freed := by
  constructor
  · have hrun : (runNamespace True serverLeaves {}).any fun s => (s.instances 0).any fun x =>
        x.body.parked = [sampleRead .server true] ∧ (x.body.ends .server).handle = false := by
      decide +kernel
    obtain ⟨s, hs, hplaced⟩ := Option.any_eq_true _ _ |>.mp hrun
    obtain ⟨x, hx, hparked⟩ := Option.any_eq_true _ _ |>.mp hplaced
    obtain ⟨hparked, hclosed⟩ := of_decide_eq_true hparked
    obtain ⟨hlifetimes, -, -, hbounded⟩ := namespace_lifetimes (NamespaceRun.initial.ofOps hs)
    exact ⟨s, x, hs, hx, hparked, hclosed, hlifetimes, hbounded trivial⟩
  · have hrun : (runNamespace True (serverLeaves ++ allLeave) {}).any fun s =>
        s.freed.length = 4 ∧ ∀ r ∈ s.allocated, r ∈ s.freed := by decide +kernel
    obtain ⟨s, hs, hall⟩ := Option.any_eq_true _ _ |>.mp hrun
    obtain ⟨hfreed, hall⟩ := of_decide_eq_true hall
    have hbalanced := (NamespaceRun.initial.ofOps hs).inv.balanced
    obtain ⟨-, -, hdrained, -⟩ := namespace_lifetimes (NamespaceRun.initial.ofOps hs)
    refine ⟨s, hs, hfreed, hdrained fun i e hlive => ?_⟩
    exact hbalanced.dead _ (hall _ ((hbalanced.accounted _).mpr (.inl hlive))) hlive

/-- The server waits for a client and closes its handle, and its thread runs. -/
def waitsOn : List NamespaceOp :=
  [.create sampleCreate, .within 0 (.listen .server .prepared), .within 0 (.cleanup .server),
    .within 0 (.resume ⟨⟨0, .server, .listen, 0, [], true, 0⟩, .listen, true⟩ 0 .prepared)]

/-- A client reads and closes its handle; its thread runs when the server has another client. -/
def readsOn : List NamespaceOp :=
  [.create sampleCreate, .openFile sampleOpen, .within 0 (.read (.client 1) 4 .prepared),
    .within 0 (.cleanup (.client 1)), .within 0 (.disconnect .server),
    .within 0 (.listen .server .prepared), .openFile sampleOpen,
    .within 0 (.resume (sampleRead (.client 1) true) 0 .prepared)]

/-- Threads wait for a handle that is closed, and nothing has woken them. -/
theorem waits_without_handle :
    (∃ s x, NamespaceRun False s ∧ s.instances 0 = some x ∧
      ⟨⟨0, .server, .listen, 0, [], true, 0⟩, .listen, false⟩ ∈ x.body.parked ∧
      (x.body.ends .server).handle = false) ∧
    ∃ s x, NamespaceRun False s ∧ s.instances 0 = some x ∧
      sampleRead (.client 1) false ∈ x.body.parked ∧ (x.body.ends (.client 1)).handle = false := by
  have hstays (ops : List NamespaceOp) (p : Park)
      (hrun : (runNamespace False ops {}).any fun s => (s.instances 0).any fun x =>
        p ∈ x.body.parked ∧ (x.body.ends p.request.file).handle = false) :
      ∃ s x, NamespaceRun False s ∧ s.instances 0 = some x ∧ p ∈ x.body.parked ∧
        (x.body.ends p.request.file).handle = false := by
    obtain ⟨s, hs, hplaced⟩ := Option.any_eq_true _ _ |>.mp hrun
    obtain ⟨x, hx, hparked⟩ := Option.any_eq_true _ _ |>.mp hplaced
    obtain ⟨hparked, hclosed⟩ := of_decide_eq_true hparked
    exact ⟨s, x, NamespaceRun.initial.ofOps hs, hx, hparked, hclosed⟩
  exact ⟨hstays waitsOn _ (by decide +kernel), hstays readsOn (sampleRead (.client 1) false) (by decide +kernel)⟩

end Proskrnl.Npfs
