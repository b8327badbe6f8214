import Proskrnl.Cm.Notify

/-!
# Each armed event is signalled once

The invariant of the notify records, then the life of one append: it is `Pending` in the record of
its open until the first action that signals it, and `Done` from then on. Where no unreported change
is overtaken, that is the report of the first change that hits the watch, or the last close.
-/

open Function (update update_apply update_eq_self update_idem update_of_ne update_self)

namespace Forest
open List Option

variable {ι : Type*} [DecidableEq ι] {f : ι → Option ι} {a : ι} {l : List ι} {start : Option ι}
  {n : ℕ}

theorem climb_of_length_le (h : climb f none (n + 1) start = some l) (hl : l.length ≤ n) :
    climb f none n start = some l := by
  induction n generalizing start l with
  | zero =>
    rw [climb] at h
    split at h
    case isTrue hstart =>
      cases h
      rw [climb, if_pos hstart]
    case isFalse =>
      obtain ⟨b, -, h⟩ := bind_eq_some_iff.mp h
      obtain ⟨tail, -, rfl⟩ := map_eq_some_iff.mp h
      cases hl
  | succ n ih =>
    rw [climb] at h ⊢
    split at h
    case isTrue hstart =>
      cases h
      rw [if_pos hstart]
    case isFalse hstart =>
      obtain ⟨b, rfl, h⟩ := bind_eq_some_iff.mp h
      obtain ⟨tail, htail, rfl⟩ := map_eq_some_iff.mp h
      rw [if_neg hstart, bind_some, ih htail (Nat.le_of_succ_le_succ hl)]
      rfl

theorem climb_update {entry : Option ι} (h : climb f none n start = some l) (ha : a ∉ l) :
    climb (update f a entry) none n start = some l := by
  induction n generalizing start l with
  | zero => exact h
  | succ n ih =>
    rw [climb] at h ⊢
    split at h
    case isTrue hstart =>
      cases h
      rw [if_pos hstart]
    case isFalse hstart =>
      obtain ⟨b, rfl, h⟩ := bind_eq_some_iff.mp h
      obtain ⟨tail, htail, rfl⟩ := map_eq_some_iff.mp h
      have hb : b ≠ a := fun hb => ha (hb ▸ mem_cons_self)
      rw [if_neg hstart, bind_some, update_of_ne hb,
        ih htail fun h => ha (.tail _ h)]
      rfl

end Forest

namespace Proskrnl.Cm.Notify

open Census Forest List Option

variable {s s' s'' : State} {w : Watch} {t : Nat} {a : Action} {r : Record} {m : Mutation} {b n : Nat}

/-! ## The invariant -/

/-- The records of all nodes: each is on the node of its open, which has a handle, and no open has
two; the events in them and in the log were appended before `next`. -/
structure Records (lists : Nat → List Record) (node : Nat → Option Nat) (handleCount : Nat → Nat)
    (log : List Armed) (next : Nat) : Prop where
  located : ∀ n, ∀ r ∈ lists n, node r.body = some n ∧ 0 < handleCount r.body
  distinct : ∀ n, ((lists n).map Record.body).Nodup
  fresh : ∀ n, ∀ r ∈ lists n, ∀ e ∈ r.events, e.token < next
  logged : ∀ e ∈ log, e.token < next

/-- The key of an unreported change is there, and nothing was appended before the change was made that
is not counted. -/
structure Reports (unreported : List Mutation) (inUse : Nat → Bool) (next : Nat) : Prop where
  live : ∀ m ∈ unreported, inUse m.key = true
  made : ∀ m ∈ unreported, m.made ≤ next

structure Inv (s : State) : Prop where
  climbs : ∀ n, ∃ l, climb s.parent none cmpHiveMaxDepth (some n) = some l
  children : ∀ n, Counted s.parent n (s.subkeyCount n)
  bodies : ∀ n, Counted s.node n (s.bodyCount n)
  unused : ∀ n, s.inUse n = false →
    s.parent n = none ∧ s.subkeyCount n = 0 ∧ s.bodyCount n = 0 ∧ s.deleted n = false
  gone : ∀ n, s.deleted n = true → s.parent n = none ∧ s.subkeyCount n = 0
  bound : ∀ b, 0 < s.handleCount b → (s.node b).isSome
  records : Records s.notifyList s.node s.handleCount s.signalled s.nextToken
  reports : Reports s.unreported s.inUse s.nextToken

section
variable {unreported unreported' : List Mutation} {inUse : Nat → Bool} {next next' : Nat}
  (h : Reports unreported inUse next)
include h

theorem Reports.mono (hsub : unreported' ⊆ unreported) (hnext : next ≤ next') :
    Reports unreported' inUse next' :=
  ⟨fun m hm => h.live m (hsub hm), fun m hm => (h.made m (hsub hm)).trans hnext⟩

theorem Reports.use (n : Nat) : Reports unreported (update inUse n true) next where
  live m hm := by
    rw [update_apply]
    split
    · rfl
    · exact h.live m hm
  made := h.made

theorem Reports.free (hn : ∀ m ∈ unreported, m.key ≠ n) :
    Reports unreported (update inUse n false) next where
  live m hm := by
    rw [update_of_ne (hn m hm)]
    exact h.live m hm
  made := h.made

theorem Reports.add (hlive : inUse m.key = true) (hmade : m.made ≤ next) :
    Reports (unreported ++ [m]) inUse next where
  live m' hm' := by
    rcases mem_append.mp hm' with hm' | hm'
    · exact h.live m' hm'
    · obtain rfl := mem_singleton.mp hm'
      exact hlive
  made m' hm' := by
    rcases mem_append.mp hm' with hm' | hm'
    · exact h.made m' hm'
    · obtain rfl := mem_singleton.mp hm'
      exact hmade

end

section
variable {lists : Nat → List Record} {node : Nat → Option Nat} {handleCount : Nat → Nat}
  {log log' : List Armed} {next next' : Nat} {l : List Record}

theorem Records.unique (h : Records lists node handleCount log next) {r' : Record}
    (hr : r ∈ lists n) (hr' : r' ∈ lists n) (hbody : r.body = r'.body) : r = r' :=
  inj_on_of_nodup_map (h.distinct n) hr hr' hbody

theorem mem_update {m : Nat} :
    r ∈ update lists n l m ↔ (m = n ∧ r ∈ l) ∨ (m ≠ n ∧ r ∈ lists m) := by
  rw [update_apply]
  split
  case isTrue hm => simp [hm]
  case isFalse hm => simp [hm]

section
variable (h : Records lists node handleCount log next)
include h

theorem Records.update (hnext : next ≤ next')
    (hlocated : ∀ r ∈ l, node r.body = some n ∧ 0 < handleCount r.body)
    (hdistinct : (l.map Record.body).Nodup)
    (hfresh : ∀ r ∈ l, ∀ e ∈ r.events, e.token < next') (hlogged : ∀ e ∈ log', e.token < next') :
    Records (update lists n l) node handleCount log' next' where
  located m r hr := by
    rcases mem_update.mp hr with ⟨rfl, hl⟩ | ⟨-, hl⟩
    · exact hlocated r hl
    · exact h.located m r hl
  distinct m := by
    rw [update_apply]
    split
    · exact hdistinct
    · exact h.distinct m
  fresh m r hr e he := by
    rcases mem_update.mp hr with ⟨-, hr⟩ | ⟨-, hr⟩
    · exact hfresh r hr e he
    · exact Nat.lt_of_lt_of_le (h.fresh m r hr e he) hnext
  logged := hlogged

theorem Records.map {f : Record → Record}
    (hf : ∀ r, (f r).body = r.body) (hnext : next ≤ next')
    (hfresh : ∀ r ∈ lists n, ∀ e ∈ (f r).events, e.token < next')
    (hlogged : ∀ e ∈ log', e.token < next') :
    Records (Function.update lists n ((lists n).map f)) node handleCount log' next' := by
  refine h.update hnext ?_ ?_ ?_ hlogged
  · intro r hr
    obtain ⟨x, hx, rfl⟩ := List.mem_map.mp hr
    rw [hf]
    exact h.located n x hx
  · have hbodies : Record.body ∘ f = Record.body := funext hf
    rw [List.map_map, hbodies]
    exact h.distinct n
  · intro r hr
    obtain ⟨x, hx, rfl⟩ := List.mem_map.mp hr
    exact hfresh x hx

theorem Records.congr {node' : Nat → Option Nat}
    {handleCount' : Nat → Nat}
    (hkeep : ∀ n, ∀ r ∈ lists n, node' r.body = node r.body ∧ 0 < handleCount' r.body) :
    Records lists node' handleCount' log next where
  located n r hr := ⟨(hkeep n r hr).1.trans (h.located n r hr).1, (hkeep n r hr).2⟩
  distinct := h.distinct
  fresh := h.fresh
  logged := h.logged

end

end

/-! ## The life of an append -/

/-- An append that was not signalled: once in the record of its open, and nowhere else. -/
structure Pending (lists : Nat → List Record) (log : List Armed) (t : Nat) (w : Watch) : Prop where
  held : ∃ r ∈ lists w.node, r.body = w.body ∧ r.filter = w.filter ∧ r.subtree = w.subtree ∧
    (r.events.map Armed.token).count t = 1
  only : ∀ n, ∀ r ∈ lists n, t ∈ r.events.map Armed.token → n = w.node ∧ r.body = w.body
  unsignalled : t ∉ log.map Armed.token

/-- An append that was signalled, once, and that no record holds any more. -/
structure Done (lists : Nat → List Record) (log : List Armed) (t : Nat) : Prop where
  once : (log.map Armed.token).count t = 1
  gone : ∀ n, ∀ r ∈ lists n, t ∉ r.events.map Armed.token

section
variable {lists : Nat → List Record} {log : List Armed} {l : List Record}

theorem count_fired {p : Record → Bool} (hdistinct : (l.map Record.body).Nodup) (hr : r ∈ l)
    (honly : ∀ x ∈ l, t ∈ x.events.map Armed.token → x.body = r.body) :
    (((l.filter p).flatMap Record.events).map Armed.token).count t =
      if p r then (r.events.map Armed.token).count t else 0 := by
  have hnone : ∀ k : List Record, (∀ x ∈ k, t ∉ x.events.map Armed.token) →
      (((k.filter p).flatMap Record.events).map Armed.token).count t = 0 := by
    intro k hk
    rw [count_eq_zero, map_flatMap]
    intro hmem
    obtain ⟨x, hx, hmem⟩ := mem_flatMap.mp hmem
    exact hk x (mem_filter.mp hx).1 hmem
  induction l with
  | nil => cases hr
  | cons x l ih =>
    rw [map_cons, nodup_cons] at hdistinct
    rcases mem_cons.mp hr with rfl | hr
    · -- the others of the list do not hold the append
      have hrest := hnone l fun y hy hmem =>
        hdistinct.1 (List.mem_map.mpr ⟨y, hy, honly y (.tail _ hy) hmem⟩)
      rw [filter_cons]
      split
      · rw [flatMap_cons, map_append, count_append, hrest, Nat.add_zero]
      · exact hrest
    · have hx : t ∉ x.events.map Armed.token := fun hmem =>
        hdistinct.1 (List.mem_map.mpr ⟨r, hr, (honly x mem_cons_self hmem).symm⟩)
      have hrest := ih hdistinct.2 hr fun y hy => honly y (.tail _ hy)
      rw [filter_cons]
      split
      · rw [flatMap_cons, map_append, count_append, count_eq_zero.mpr hx,
          Nat.zero_add]
        exact hrest
      · exact hrest

end

def fired (p : Record → Bool) (r : Record) : Record := if p r then { r with events := [] } else r

theorem fired_body (p : Record → Bool) (r : Record) : (fired p r).body = r.body := by
  rw [fired]
  split <;> rfl

theorem fired_filter (p : Record → Bool) (r : Record) :
    (fired p r).filter = r.filter ∧ (fired p r).subtree = r.subtree := by
  rw [fired]
  split <;> exact ⟨rfl, rfl⟩

theorem mem_fired {p : Record → Bool} (h : t ∈ (fired p r).events.map Armed.token) :
    t ∈ r.events.map Armed.token := by
  rw [fired] at h
  split at h
  · cases h
  · exact h

theorem fireNotify_notifyList (s : State) (n : Nat) (p : Record → Bool) :
    (s.fireNotify n p).notifyList =
      update s.notifyList n ((s.notifyList n).map (fired p)) := rfl

theorem of_mem_fireNotify {p : Record → Bool} {m : Nat} {x : Record}
    (h : x ∈ (s.fireNotify n p).notifyList m) : ∃ r ∈ s.notifyList m, x.body = r.body ∧
      ∀ t, t ∈ x.events.map Armed.token → t ∈ r.events.map Armed.token := by
  rw [fireNotify_notifyList, update_apply] at h
  split at h
  case isTrue hm =>
    obtain ⟨r, hr, rfl⟩ := List.mem_map.mp h
    exact ⟨r, hm ▸ hr, fired_body p r, fun t => mem_fired⟩
  case isFalse => exact ⟨x, h, rfl, fun t => id⟩

section
variable (hrec : Records s.notifyList s.node s.handleCount s.signalled s.nextToken)

include hrec in
theorem Records.fireNotify (p : Record → Bool) :
    Records (s.fireNotify n p).notifyList s.node s.handleCount (s.fireNotify n p).signalled
      s.nextToken := by
  refine hrec.map (f := fired p) (fired_body p) (le_refl _) (fun r hr e he => ?_) fun e he => ?_
  · rw [fired] at he
    split at he
    · cases he
    · exact hrec.fresh n r hr e he
  · rcases mem_append.mp he with he | he
    · exact hrec.logged e he
    · obtain ⟨r, hr, he⟩ := mem_flatMap.mp he
      exact hrec.fresh n r (mem_filter.mp hr).1 e he

include hrec in
theorem Pending.fire_hit (h : Pending s.notifyList s.signalled t w) {p : Record → Bool}
    (hp : ∀ r, r.filter = w.filter → r.subtree = w.subtree → p r = true) :
    Done (s.fireNotify w.node p).notifyList (s.fireNotify w.node p).signalled t := by
  obtain ⟨r, hr, hbody, hfilter, hsubtree, hcount⟩ := h.held
  have hpr := hp r hfilter hsubtree
  constructor
  · have hfired := count_fired (p := p) (t := t) (hrec.distinct w.node) hr fun x hx hmem =>
      (h.only w.node x hx hmem).2.trans hbody.symm
    rw [State.fireNotify, map_append, count_append, hfired, if_pos hpr, hcount,
      count_eq_zero.mpr h.unsignalled]
  · intro m x hx hmem
    obtain ⟨y, hy, hxy, htokens⟩ := of_mem_fireNotify hx
    obtain ⟨rfl, hybody⟩ := h.only m y hy (htokens t hmem)
    -- the only record with the append is the one whose events are gone
    rw [fireNotify_notifyList, update_self] at hx
    obtain ⟨z, hz, rfl⟩ := List.mem_map.mp hx
    have hzr : z = r := hrec.unique hz hr (by rw [← fired_body p z, hxy, hybody, hbody])
    rw [fired, hzr, if_pos hpr] at hmem
    cases hmem

include hrec in
theorem Pending.fire_miss (h : Pending s.notifyList s.signalled t w) {p : Record → Bool}
    (hp : n = w.node → ∀ r, r.filter = w.filter → r.subtree = w.subtree → p r = false) :
    Pending (s.fireNotify n p).notifyList (s.fireNotify n p).signalled t w := by
  obtain ⟨r, hr, hbody, hfilter, hsubtree, hcount⟩ := h.held
  constructor
  · rw [fireNotify_notifyList, update_apply]
    split
    case isTrue hn =>
      have hkept : fired p r = r := by
        rw [fired, if_neg]
        rw [hp hn.symm r hfilter hsubtree]
        exact Bool.false_ne_true
      exact ⟨r, List.mem_map.mpr ⟨r, hn ▸ hr, hkept⟩, hbody, hfilter, hsubtree, hcount⟩
    case isFalse => exact ⟨r, hr, hbody, hfilter, hsubtree, hcount⟩
  · intro m x hx hmem
    obtain ⟨y, hy, hxy, htokens⟩ := of_mem_fireNotify hx
    rw [hxy]
    exact h.only m y hy (htokens t hmem)
  · rw [State.fireNotify, map_append, mem_append, not_or]
    refine ⟨h.unsignalled, fun hmem => ?_⟩
    rw [map_flatMap] at hmem
    obtain ⟨x, hx, hmem⟩ := mem_flatMap.mp hmem
    obtain ⟨hx, hpx⟩ := mem_filter.mp hx
    obtain ⟨hn, hxbody⟩ := h.only n x hx hmem
    have hxr : x = r := hrec.unique (hn ▸ hx) hr (hxbody.trans hbody.symm)
    rw [hxr, hp hn r hfilter hsubtree] at hpx
    cases hpx

theorem Done.fire (h : Done s.notifyList s.signalled t) (p : Record → Bool) :
    Done (s.fireNotify n p).notifyList (s.fireNotify n p).signalled t := by
  constructor
  · rw [State.fireNotify, map_append, count_append, h.once, Nat.add_eq_left,
      count_eq_zero, map_flatMap]
    intro hmem
    obtain ⟨x, hx, hmem⟩ := mem_flatMap.mp hmem
    exact h.gone n x (mem_filter.mp hx).1 hmem
  · intro m x hx hmem
    obtain ⟨y, hy, -, htokens⟩ := of_mem_fireNotify hx
    exact h.gone m y hy (htokens t hmem)

end

/-! ## A change -/

def matching (change : BitVec 32) (notSubtree : Bool) (r : Record) : Bool :=
  (notSubtree || r.subtree) && decide (change &&& r.filter ≠ 0)

theorem matching_eq {change : BitVec 32} {notSubtree : Bool} (hfilter : r.filter = w.filter)
    (hsubtree : r.subtree = w.subtree) : matching change notSubtree r = true ↔
      (notSubtree = true ∨ w.subtree = true) ∧ change &&& w.filter ≠ 0 := by
  rw [matching, Bool.and_eq_true, Bool.or_eq_true, decide_eq_true_eq, hfilter, hsubtree]

theorem Done.fire_above {change : BitVec 32} (above : List Nat)
    (h : Done s.notifyList s.signalled t) :
    Done (above.foldl (fun s a => s.cmpCheckNotify a change false) s).notifyList
      (above.foldl (fun s a => s.cmpCheckNotify a change false) s).signalled t := by
  induction above generalizing s with
  | nil => exact h
  | cons x above ih => exact ih (h.fire _)

/-- Firing along the ancestors: the watched key is among them and the change is one it waits for,
or nothing happens to the append. -/
theorem Pending.fire_above (above : List Nat) (change : BitVec 32)
    (hrec : Records s.notifyList s.node s.handleCount s.signalled s.nextToken)
    (h : Pending s.notifyList s.signalled t w) :
    let s' := above.foldl (fun s ancestor => s.cmpCheckNotify ancestor change false) s
    (w.subtree = true ∧ w.node ∈ above ∧ change &&& w.filter ≠ 0 →
        Done s'.notifyList s'.signalled t) ∧
      (¬ (w.subtree = true ∧ w.node ∈ above ∧ change &&& w.filter ≠ 0) →
        Pending s'.notifyList s'.signalled t w) := by
  induction above generalizing s with
  | nil => exact ⟨fun hnone => (nomatch hnone.2.1), fun _ => h⟩
  | cons x above ih =>
    simp only [foldl_cons]
    have hrec' := hrec.fireNotify (n := x) (matching change false)
    by_cases hx : x = w.node ∧ w.subtree = true ∧ change &&& w.filter ≠ 0
    · obtain ⟨rfl, hsub, hchange⟩ := hx
      have hfired := h.fire_hit hrec (p := matching change false) fun r hf hs =>
        (matching_eq hf hs).mpr ⟨.inr hsub, hchange⟩
      refine ⟨fun _ => hfired.fire_above above, fun hnot => ?_⟩
      exact absurd ⟨hsub, mem_cons_self, hchange⟩ hnot
    · have hmiss := h.fire_miss hrec (n := x) (p := matching change false) fun hn r hf hs => by
        rw [Bool.eq_false_iff]
        intro hmatch
        obtain ⟨hsub, hchange⟩ := (matching_eq hf hs).mp hmatch
        exact hx ⟨hn, hsub.resolve_left Bool.false_ne_true, hchange⟩
      obtain ⟨hhit, hpass⟩ := ih hrec' hmiss
      refine ⟨fun ⟨hsub, hmem, hchange⟩ => hhit ⟨hsub, ?_, hchange⟩,
        fun hnot => hpass fun ⟨hsub, hmem, hchange⟩ => hnot ⟨hsub, .tail _ hmem, hchange⟩⟩
      refine (mem_cons.mp hmem).resolve_left fun heq => ?_
      exact hx ⟨heq.symm, hsub, hchange⟩

theorem Done.change {change : BitVec 32} (h : Done s.notifyList s.signalled t)
    (hs : s.cmpNotifyChange n change = some s') : Done s'.notifyList s'.signalled t := by
  obtain ⟨above, -, rfl⟩ := map_eq_some_iff.mp hs
  have hself : Done (s.cmpCheckNotify n change true).notifyList
      (s.cmpCheckNotify n change true).signalled t := h.fire _
  exact hself.fire_above above

theorem Pending.change {change : BitVec 32}
    (hrec : Records s.notifyList s.node s.handleCount s.signalled s.nextToken)
    (h : Pending s.notifyList s.signalled t w) (hs : s.cmpNotifyChange n change = some s') :
    (change &&& w.filter ≠ 0 ∧ Reaches s w n → Done s'.notifyList s'.signalled t) ∧
      (¬ (change &&& w.filter ≠ 0 ∧ Reaches s w n) → Pending s'.notifyList s'.signalled t w) := by
  obtain ⟨above, habove, rfl⟩ := map_eq_some_iff.mp hs
  have hmem : w.node ∈ above ↔ ∃ p, s.parent n = some p ∧ Under s.parent p w.node :=
    mem_climb habove
  by_cases hn : n = w.node ∧ change &&& w.filter ≠ 0
  · obtain ⟨rfl, hchange⟩ := hn
    have hfired := h.fire_hit hrec (p := matching change true) fun r hf hs =>
      (matching_eq hf hs).mpr ⟨.inl rfl, hchange⟩
    refine ⟨fun _ => hfired.fire_above above, fun hnot => ?_⟩
    exact absurd ⟨hchange, .inl rfl⟩ hnot
  · have hmiss := h.fire_miss hrec (n := n) (p := matching change true) fun heq r hf hs => by
      rw [Bool.eq_false_iff]
      intro hmatch
      exact hn ⟨heq, ((matching_eq hf hs).mp hmatch).2⟩
    have hrec' := hrec.fireNotify (n := n) (matching change true)
    obtain ⟨hhit, hpass⟩ := Pending.fire_above (s := s.cmpCheckNotify n change true) above change
      hrec' hmiss
    rw [hmem] at hhit hpass
    refine ⟨fun ⟨hchange, hreach⟩ => hhit ?_, fun hnot => hpass fun ⟨hsub, hup, hchange⟩ =>
      hnot ⟨hchange, .inr ⟨hsub, hup⟩⟩⟩
    rcases hreach with heq | ⟨hsub, hup⟩
    · exact absurd ⟨heq, hchange⟩ hn
    · exact ⟨hsub, hup, hchange⟩

theorem cmpNotifyChange_records {change : BitVec 32}
    (hrec : Records s.notifyList s.node s.handleCount s.signalled s.nextToken)
    (hs : s.cmpNotifyChange n change = some s') :
    Records s'.notifyList s.node s.handleCount s'.signalled s.nextToken ∧
      ∃ lists log, s' = { s with notifyList := lists, signalled := log } := by
  obtain ⟨above, -, rfl⟩ := map_eq_some_iff.mp hs
  have hself : Records (s.cmpCheckNotify n change true).notifyList s.node s.handleCount
      (s.cmpCheckNotify n change true).signalled s.nextToken := hrec.fireNotify _
  have hform : ∃ lists log, s.cmpCheckNotify n change true =
      { s with notifyList := lists, signalled := log } := ⟨_, _, rfl⟩
  generalize s.cmpCheckNotify n change true = s₁ at hself hform
  clear hs
  induction above generalizing s₁ with
  | nil => exact ⟨hself, hform⟩
  | cons x above ih =>
    obtain ⟨lists, log, rfl⟩ := hform
    exact ih _ (Records.fireNotify hself _) ⟨_, _, rfl⟩

/-- A report signals nothing where a new key has no parent any more. -/
theorem reportMutation_cases (hs : s.reportMutation m = some s') :
    (m.target s = none ∧ s' = { s with unreported := s.unreported.erase m }) ∨
    ∃ n, m.target s = some n ∧
      { s with unreported := s.unreported.erase m }.cmpNotifyChange n m.change = some s' := by
  rw [State.reportMutation] at hs
  split at hs
  · simp only at hs
    split at hs
    · rename_i htarget
      cases hs
      exact .inl ⟨htarget, rfl⟩
    · rename_i n htarget
      exact .inr ⟨n, htarget, hs⟩
  · cases hs

theorem reportMutation_records (hrec : Records s.notifyList s.node s.handleCount s.signalled s.nextToken)
    (hs : s.reportMutation m = some s') :
    Records s'.notifyList s.node s.handleCount s'.signalled s.nextToken ∧
      ∃ lists log, s' = { s with
        unreported := s.unreported.erase m, notifyList := lists, signalled := log } := by
  rcases reportMutation_cases hs with ⟨-, rfl⟩ | ⟨n, -, hs⟩
  · exact ⟨hrec, _, _, rfl⟩
  · exact cmpNotifyChange_records (s := { s with unreported := s.unreported.erase m }) hrec hs

theorem Done.report (h : Done s.notifyList s.signalled t) (hs : s.reportMutation m = some s') :
    Done s'.notifyList s'.signalled t := by
  rcases reportMutation_cases hs with ⟨-, rfl⟩ | ⟨n, -, hs⟩
  · exact h
  · exact Done.change (s := { s with unreported := s.unreported.erase m }) h hs

theorem Pending.report (hrec : Records s.notifyList s.node s.handleCount s.signalled s.nextToken)
    (h : Pending s.notifyList s.signalled t w) (hs : s.reportMutation m = some s') :
    (m.Hits s w → Done s'.notifyList s'.signalled t) ∧
      (¬ m.Hits s w → Pending s'.notifyList s'.signalled t w) := by
  rcases reportMutation_cases hs with ⟨hnone, rfl⟩ | ⟨n, htarget, hs⟩
  · refine ⟨fun ⟨_, n, hn, _⟩ => ?_, fun _ => h⟩
    rw [hnone] at hn
    cases hn
  · obtain ⟨hhit, hmiss⟩ :=
      Pending.change (s := { s with unreported := s.unreported.erase m }) hrec h hs
    refine ⟨fun ⟨hchange, k, hk, hreach⟩ => hhit ⟨hchange, ?_⟩, fun hnot => hmiss fun hreach =>
      hnot ⟨hreach.1, n, htarget, hreach.2⟩⟩
    rw [htarget] at hk
    cases hk
    exact hreach

/-! ## The close of a handle -/

theorem cmpFindNotify_eq_some (h : s.cmpFindNotify n b = some r) :
    r ∈ s.notifyList n ∧ r.body = b :=
  ⟨mem_of_find?_eq_some h, by simpa using find?_some h⟩

theorem mem_eraseP_body {l : List Record} (hdistinct : (l.map Record.body).Nodup) :
    r ∈ l.eraseP (fun r => r.body = b) ↔ r ∈ l ∧ r.body ≠ b := by
  induction l with
  | nil => simp
  | cons x l ih =>
    rw [map_cons, nodup_cons] at hdistinct
    by_cases hx : x.body = b
    · rw [eraseP_cons_of_pos (by simpa using hx), mem_cons]
      refine ⟨fun hr => ⟨.inr hr, fun hb => ?_⟩, fun ⟨hr, hb⟩ => ?_⟩
      · exact hdistinct.1 (List.mem_map.mpr ⟨r, hr, hb.trans hx.symm⟩)
      · exact hr.resolve_left fun heq => hb (heq ▸ hx)
    · rw [eraseP_cons_of_neg (by simpa using hx), mem_cons, mem_cons,
        ih hdistinct.2]
      refine ⟨fun hr => ?_, fun ⟨hr, hb⟩ => ?_⟩
      · rcases hr with rfl | ⟨hr, hb⟩
        · exact ⟨.inl rfl, hx⟩
        · exact ⟨.inr hr, hb⟩
      · exact hr.imp id fun hr => ⟨hr, hb⟩

/-- A close frees the record of the open, or there is none that it could free. -/
theorem closeHandle_cases (hs : s.step (.closeHandle b) = some s') :
    (∃ n r, s.handleCount b = 1 ∧ s.node b = some n ∧ r ∈ s.notifyList n ∧ r.body = b ∧
      s' = { s with
        handleCount := update s.handleCount b (s.handleCount b - 1)
        notifyList := update s.notifyList n
          ((s.notifyList n).eraseP fun r => r.body = b)
        signalled := s.signalled ++ r.events }) ∨
    ((s.handleCount b = 1 → ∀ n, s.node b = some n → ∀ r ∈ s.notifyList n, r.body ≠ b) ∧
      s' = { s with
        handleCount := update s.handleCount b (s.handleCount b - 1) }) := by
  cases hs
  rw [State.cmpCloseKeyBody]
  split
  case isTrue hcount => exact .inr ⟨fun h => absurd h hcount, rfl⟩
  case isFalse hcount =>
    have hcount := Classical.not_not.mp hcount
    split
    case h_1 hnode =>
      refine .inr ⟨fun _ n hn => ?_, rfl⟩
      have hnode : s.node b = none := hnode
      rw [hnode] at hn
      cases hn
    case h_2 n hnode =>
      have hnode : s.node b = some n := hnode
      split
      case h_1 hfind =>
        refine .inr ⟨fun _ m hm r hr hbody => ?_, rfl⟩
        rw [hnode] at hm
        cases hm
        have := find?_eq_none.mp hfind r hr
        simp [hbody] at this
      case h_2 r hfind =>
        obtain ⟨hr, hbody⟩ := cmpFindNotify_eq_some (s := s) hfind
        exact .inl ⟨n, r, hcount, hnode, hr, hbody, rfl⟩

theorem Pending.close (hrec : Records s.notifyList s.node s.handleCount s.signalled s.nextToken)
    (h : Pending s.notifyList s.signalled t w) (hs : s.step (.closeHandle b) = some s') :
    (b = w.body ∧ s.handleCount b = 1 → Done s'.notifyList s'.signalled t) ∧
      (¬ (b = w.body ∧ s.handleCount b = 1) → Pending s'.notifyList s'.signalled t w) := by
  obtain ⟨r₀, hr₀, hbody₀, hfilter, hsubtree, hcount⟩ := h.held
  have hnode := (hrec.located w.node r₀ hr₀).1
  rcases closeHandle_cases hs with ⟨n, r, hone, hn, hr, hbody, rfl⟩ | ⟨hnone, rfl⟩
  · have herased : ∀ x, x ∈ (s.notifyList n).eraseP (fun r => r.body = b) ↔
        x ∈ s.notifyList n ∧ x.body ≠ b := fun x => mem_eraseP_body (hrec.distinct n)
    constructor
    · rintro ⟨rfl, -⟩
      rw [hbody₀, hn] at hnode
      cases hnode
      have hrr : r = r₀ := hrec.unique hr hr₀ (hbody.trans hbody₀.symm)
      constructor
      · rw [map_append, count_append, hrr, hcount,
          count_eq_zero.mpr h.unsignalled]
      · intro m x hx hmem
        rcases mem_update.mp hx with ⟨-, hx⟩ | ⟨hm, hx⟩
        · obtain ⟨hx, hne⟩ := (herased x).mp hx
          exact hne (h.only w.node x hx hmem).2
        · exact hm (h.only m x hx hmem).1
    · intro hnot
      have hne : w.body ≠ b := fun heq => hnot ⟨heq.symm, hone⟩
      constructor
      · refine ⟨r₀, mem_update.mpr ?_, hbody₀, hfilter, hsubtree, hcount⟩
        by_cases hwn : w.node = n
        · exact .inl ⟨hwn, (herased r₀).mpr ⟨hwn ▸ hr₀, hbody₀ ▸ hne⟩⟩
        · exact .inr ⟨hwn, hr₀⟩
      · intro m x hx hmem
        rcases mem_update.mp hx with ⟨rfl, hx⟩ | ⟨-, hx⟩
        · exact h.only m x ((herased x).mp hx).1 hmem
        · exact h.only m x hx hmem
      · rw [map_append, mem_append, not_or]
        refine ⟨h.unsignalled, fun hmem => hne ?_⟩
        exact (h.only n r hr hmem).2.symm.trans hbody
  · refine ⟨fun ⟨hb, hone⟩ => ?_, fun _ => ⟨⟨r₀, hr₀, hbody₀, hfilter, hsubtree, hcount⟩, h.only,
      h.unsignalled⟩⟩
    rw [hbody₀, ← hb] at hnode
    exact absurd (hbody₀.trans hb.symm) (hnone hone w.node hnode r₀ hr₀)

theorem Done.close (hrec : Records s.notifyList s.node s.handleCount s.signalled s.nextToken)
    (h : Done s.notifyList s.signalled t) (hs : s.step (.closeHandle b) = some s') :
    Done s'.notifyList s'.signalled t := by
  rcases closeHandle_cases hs with ⟨n, r, -, -, hr, -, rfl⟩ | ⟨-, rfl⟩
  · constructor
    · rw [map_append, count_append, h.once,
        count_eq_zero.mpr (h.gone n r hr)]
    · intro m x hx
      rcases mem_update.mp hx with ⟨rfl, hx⟩ | ⟨-, hx⟩
      · exact h.gone m x ((mem_eraseP_body (hrec.distinct m)).mp hx).1
      · exact h.gone m x hx
  · exact ⟨h.once, h.gone⟩

theorem Inv.close (h : Inv s) (hpos : 0 < s.handleCount b)
    (hs : s.step (.closeHandle b) = some s') : Inv s' := by
  have hrec := h.records
  have hbound : ∀ c, 0 < update s.handleCount b (s.handleCount b - 1) c →
      (s.node c).isSome := by
    intro c hc
    refine h.bound c ?_
    rw [update_apply] at hc
    split at hc
    case isTrue heq => exact heq ▸ hpos
    case isFalse => exact hc
  rcases closeHandle_cases hs with ⟨n, r, hone, hn, hr, hbody, rfl⟩ | ⟨hnone, rfl⟩
  · refine ⟨h.climbs, h.children, h.bodies, h.unused, h.gone, hbound, ?_, h.reports⟩
    have herased : ∀ x, x ∈ (s.notifyList n).eraseP (fun r => r.body = b) ↔
        x ∈ s.notifyList n ∧ x.body ≠ b := fun x => mem_eraseP_body (hrec.distinct n)
    have hrest : Records (update s.notifyList n
        ((s.notifyList n).eraseP fun r => r.body = b)) s.node s.handleCount
        (s.signalled ++ r.events) s.nextToken := by
      refine hrec.update (le_refl _) ?_ ?_ ?_ ?_
      · exact fun x hx => hrec.located n x ((herased x).mp hx).1
      · exact (hrec.distinct n).sublist ((eraseP_sublist).map Record.body)
      · exact fun x hx => hrec.fresh n x ((herased x).mp hx).1
      · intro e he
        rcases mem_append.mp he with he | he
        · exact hrec.logged e he
        · exact hrec.fresh n r hr e he
    refine hrest.congr fun m x hx => ⟨rfl, ?_⟩
    -- no record of the open is left, so the count of no record's open went down
    have hxb : x.body ≠ b := by
      intro hxb
      have hxn := (hrest.located m x hx).1
      rw [hxb, hn] at hxn
      cases hxn
      rw [update_self] at hx
      exact ((herased x).mp hx).2 hxb
    simp only [update_of_ne hxb]
    exact (hrest.located m x hx).2
  · refine ⟨h.climbs, h.children, h.bodies, h.unused, h.gone, hbound, ?_, h.reports⟩
    refine hrec.congr fun m x hx => ⟨rfl, ?_⟩
    obtain ⟨hnode, hcount⟩ := hrec.located m x hx
    simp only [update_apply]
    split
    case isTrue hxb =>
      rw [hxb] at hnode
      have hne : s.handleCount b ≠ 1 := fun hone => hnone hone m hnode x hx hxb
      omega
    case isFalse => exact hcount

/-! ## Arming -/

def appended (b : Nat) (e : Armed) (r : Record) : Record :=
  if r.body = b then { r with events := r.events ++ [e] } else r

theorem appended_body (b : Nat) (e : Armed) (r : Record) : (appended b e r).body = r.body := by
  rw [appended]
  split <;> rfl

theorem appended_filter (b : Nat) (e : Armed) (r : Record) :
    (appended b e r).filter = r.filter ∧ (appended b e r).subtree = r.subtree := by
  rw [appended]
  split <;> exact ⟨rfl, rfl⟩

theorem mem_appended {e x : Armed} (h : x ∈ (appended b e r).events) :
    x ∈ r.events ∨ (r.body = b ∧ x = e) := by
  rw [appended] at h
  split at h
  case isTrue hb =>
    rcases mem_append.mp h with h | h
    · exact .inl h
    · exact .inr ⟨hb, mem_singleton.mp h⟩
  case isFalse => exact .inl h

theorem count_appended {e : Armed} (ht : t ≠ e.token) :
    ((appended b e r).events.map Armed.token).count t = (r.events.map Armed.token).count t := by
  rw [appended]
  split
  · rw [map_append, count_append, Nat.add_eq_left, count_eq_zero]
    intro h
    exact ht (mem_singleton.mp h)
  · rfl

/-- The records of the node of an open, with one of that open: the record there is, or a new one
with what this arm asks for. -/
structure Ready (s : State) (n b : Nat) (filter : BitVec 32) (subtree : Bool)
    (records : List Record) (w : Watch) : Prop where
  watch : w.body = b ∧ w.node = n
  record : ∃ r ∈ records, r.body = b ∧ r.filter = w.filter ∧ r.subtree = w.subtree
  first : (∀ r ∈ s.notifyList n, r.body ≠ b) → w.filter = filter ∧ w.subtree = subtree
  old : ∀ r ∈ s.notifyList n, r ∈ records
  new : ∀ r ∈ records, r ∈ s.notifyList n ∨ (r.body = b ∧ r.events = [])
  distinct : (records.map Record.body).Nodup

theorem cmpArmNotify_cases {event : Nat} {filter : BitVec 32} {subtree recordPool eventsPool : Bool}
    (hrec : Records s.notifyList s.node s.handleCount s.signalled s.nextToken)
    (hn : s.node b = some n)
    (hs : s.cmpArmNotify b event filter subtree recordPool eventsPool = s') :
    s' = s ∨ ∃ records w, Ready s n b filter subtree records w ∧
      ((eventsPool = false ∧ s' = { s with notifyList := update s.notifyList n records }) ∨
        s' = { s with
          notifyList := update s.notifyList n
            (records.map (appended b ⟨event, s.nextToken⟩))
          nextToken := s.nextToken + 1 }) := by
  rw [State.cmpArmNotify, hn] at hs
  simp only at hs
  have hpick : ∀ records w, Ready s n b filter subtree records w →
      (if eventsPool then
        { s with
          notifyList := update s.notifyList n (records.map fun r =>
            if r.body = b then { r with events := r.events ++ [⟨event, s.nextToken⟩] } else r)
          nextToken := s.nextToken + 1 }
      else { s with notifyList := update s.notifyList n records }) = s' →
      s' = s ∨ ∃ records w, Ready s n b filter subtree records w ∧
        ((eventsPool = false ∧
            s' = { s with notifyList := update s.notifyList n records }) ∨
          s' = { s with
            notifyList := update s.notifyList n
              (records.map (appended b ⟨event, s.nextToken⟩))
            nextToken := s.nextToken + 1 }) := by
    intro records w hready heq
    refine .inr ⟨records, w, hready, ?_⟩
    cases eventsPool with
    | true => exact .inr heq.symm
    | false => exact .inl ⟨rfl, heq.symm⟩
  cases hfind : s.cmpFindNotify n b with
  | some r =>
    rw [hfind] at hs
    obtain ⟨hr, hbody⟩ := cmpFindNotify_eq_some hfind
    refine hpick (s.notifyList n) ⟨b, n, r.filter, r.subtree⟩ ?_ hs
    exact ⟨⟨rfl, rfl⟩, ⟨r, hr, hbody, rfl, rfl⟩, fun hnone => absurd hbody (hnone r hr),
      fun r hr => hr, fun r hr => .inl hr, hrec.distinct n⟩
  | none =>
    rw [hfind] at hs
    have hnone : ∀ r ∈ s.notifyList n, r.body ≠ b := by
      intro r hr
      simpa using find?_eq_none.mp hfind r hr
    cases recordPool with
    | false => exact .inl hs.symm
    | true =>
      refine hpick (⟨b, subtree, filter, []⟩ :: s.notifyList n) ⟨b, n, filter, subtree⟩ ?_ hs
      refine ⟨⟨rfl, rfl⟩, ⟨_, mem_cons_self, rfl, rfl, rfl⟩, fun _ => ⟨rfl, rfl⟩,
        fun r hr => .tail _ hr, fun r hr => ?_, ?_⟩
      · rcases mem_cons.mp hr with rfl | hr
        · exact .inr ⟨rfl, rfl⟩
        · exact .inl hr
      · rw [map_cons, nodup_cons]
        refine ⟨fun hmem => ?_, hrec.distinct n⟩
        obtain ⟨r, hr, hbody⟩ := List.mem_map.mp hmem
        exact hnone r hr hbody

section
variable {lists : Nat → List Record} {log : List Armed} {records : List Record}
  {f : Record → Record}

theorem Pending.replace (h : Pending lists log t w) (hold : ∀ r ∈ lists n, r ∈ records)
    (hnew : ∀ r ∈ records, r ∈ lists n ∨ (r.body = b ∧ r.events = []))
    (hbody : ∀ r, (f r).body = r.body)
    (hfilter : ∀ r, (f r).filter = r.filter ∧ (f r).subtree = r.subtree)
    (hcount : ∀ r, ((f r).events.map Armed.token).count t = (r.events.map Armed.token).count t) :
    Pending (update lists n (records.map f)) log t w := by
  constructor
  · obtain ⟨r, hr, hb, hf, hs, hc⟩ := h.held
    by_cases hwn : w.node = n
    · refine ⟨f r, mem_update.mpr (.inl ⟨hwn, List.mem_map_of_mem (hold r (hwn ▸ hr))⟩),
        (hbody r).trans hb, (hfilter r).1.trans hf, (hfilter r).2.trans hs, (hcount r).trans hc⟩
    · exact ⟨r, mem_update.mpr (.inr ⟨hwn, hr⟩), hb, hf, hs, hc⟩
  · intro m x hx hmem
    rcases mem_update.mp hx with ⟨rfl, hl⟩ | ⟨-, hl⟩
    · obtain ⟨r, hr, rfl⟩ := List.mem_map.mp hl
      rw [← count_pos_iff, hcount, count_pos_iff] at hmem
      rw [hbody]
      rcases hnew r hr with hr | ⟨-, hr⟩
      · exact h.only m r hr hmem
      · rw [hr] at hmem
        cases hmem
    · exact h.only m x hl hmem
  · exact h.unsignalled

theorem Done.replace (h : Done lists log t)
    (hnew : ∀ r ∈ records, r ∈ lists n ∨ (r.body = b ∧ r.events = []))
    (hcount : ∀ r, ((f r).events.map Armed.token).count t = (r.events.map Armed.token).count t) :
    Done (update lists n (records.map f)) log t := by
  refine ⟨h.once, fun m x hx hmem => ?_⟩
  rcases mem_update.mp hx with ⟨rfl, hl⟩ | ⟨-, hl⟩
  · obtain ⟨r, hr, rfl⟩ := List.mem_map.mp hl
    rw [← count_pos_iff, hcount, count_pos_iff] at hmem
    rcases hnew r hr with hr | ⟨-, hr⟩
    · exact h.gone m r hr hmem
    · rw [hr] at hmem
      cases hmem
  · exact h.gone m x hl hmem

end

section
variable {event : Nat} {filter : BitVec 32} {subtree recordPool eventsPool : Bool}
  (hrec : Records s.notifyList s.node s.handleCount s.signalled s.nextToken)
  (hn : s.node b = some n)
  (hs : s.cmpArmNotify b event filter subtree recordPool eventsPool = s')

include hrec hn hs

theorem Pending.arm (h : Pending s.notifyList s.signalled t w) (ht : t < s.nextToken) :
    Pending s'.notifyList s'.signalled t w := by
  rcases cmpArmNotify_cases hrec hn hs with rfl | ⟨records, w', hready, ⟨-, rfl⟩ | rfl⟩
  · exact h
  · have := h.replace (f := id) hready.old hready.new (fun _ => rfl) (fun _ => ⟨rfl, rfl⟩)
      fun _ => rfl
    rwa [List.map_id] at this
  · exact h.replace hready.old hready.new (appended_body b _) (appended_filter b _) fun r =>
      count_appended (Nat.ne_of_lt ht)

theorem Done.arm (h : Done s.notifyList s.signalled t) (ht : t < s.nextToken) :
    Done s'.notifyList s'.signalled t := by
  rcases cmpArmNotify_cases hrec hn hs with rfl | ⟨records, w', hready, ⟨-, rfl⟩ | rfl⟩
  · exact h
  · have := h.replace (f := id) hready.new fun _ => rfl
    rwa [List.map_id] at this
  · exact h.replace hready.new fun r => count_appended (Nat.ne_of_lt ht)

theorem Pending.of_arm (hnext : s'.nextToken = s.nextToken + 1) :
    ∃ w, w.body = b ∧ w.node = n ∧
      ((∀ r ∈ s.notifyList n, r.body ≠ b) → w.filter = filter ∧ w.subtree = subtree) ∧
      (∀ r ∈ s.notifyList n, r.body = b → w.filter = r.filter ∧ w.subtree = r.subtree) ∧
      Pending s'.notifyList s'.signalled s.nextToken w := by
  rcases cmpArmNotify_cases hrec hn hs with rfl | ⟨records, w, hready, ⟨-, rfl⟩ | rfl⟩
  · omega
  · exact absurd hnext (Nat.ne_of_lt (Nat.lt_succ_self _))
  · obtain ⟨hwb, hwn⟩ := hready.watch
    obtain ⟨r, hr, hbody, hfilter, hsubtree⟩ := hready.record
    have hold : ∀ m, ∀ x ∈ s.notifyList m, s.nextToken ∉ x.events.map Armed.token := by
      intro m x hx hmem
      obtain ⟨e, he, htoken⟩ := List.mem_map.mp hmem
      exact absurd (hrec.fresh m x hx e he) (by omega)
    have hevents : s.nextToken ∉ r.events.map Armed.token := by
      rcases hready.new r hr with hr | ⟨-, hr⟩
      · exact hold n r hr
      · rw [hr]
        exact not_mem_nil
    refine ⟨w, hwb, hwn, hready.first, fun x hx hxb => ?_, ?_, ?_, ?_⟩
    · have hxr : x = r := inj_on_of_nodup_map hready.distinct (hready.old x hx) hr
        (hxb.trans hbody.symm)
      exact ⟨hxr ▸ hfilter.symm, hxr ▸ hsubtree.symm⟩
    · refine ⟨appended b ⟨event, s.nextToken⟩ r, mem_update.mpr (.inl ⟨hwn,
        List.mem_map_of_mem hr⟩), (appended_body b _ r).trans (hbody.trans hwb.symm),
        (appended_filter b _ r).1.trans hfilter, (appended_filter b _ r).2.trans hsubtree, ?_⟩
      rw [appended, if_pos hbody, map_append, count_append,
        count_eq_zero.mpr hevents]
      simp
    · intro m x hx hmem
      rcases mem_update.mp hx with ⟨rfl, hl⟩ | ⟨-, hl⟩
      · obtain ⟨y, hy, rfl⟩ := List.mem_map.mp hl
        obtain ⟨e, he, htoken⟩ := List.mem_map.mp hmem
        rcases mem_appended he with he | ⟨hyb, -⟩
        · rcases hready.new y hy with hy | ⟨-, hy⟩
          · exact absurd (List.mem_map.mpr ⟨e, he, htoken⟩) (hold m y hy)
          · rw [hy] at he
            cases he
        · exact ⟨hwn.symm, (appended_body b _ y).trans (hyb.trans hwb.symm)⟩
      · exact absurd hmem (hold m x hl)
    · intro hmem
      obtain ⟨e, he, htoken⟩ := List.mem_map.mp hmem
      exact absurd (hrec.logged e he) (by omega)

theorem cmpArmNotify_records (hcount : 0 < s.handleCount b) :
    Records s'.notifyList s.node s.handleCount s'.signalled s'.nextToken ∧
      s.nextToken ≤ s'.nextToken ∧
      ∃ lists next, s' = { s with notifyList := lists, nextToken := next } := by
  rcases cmpArmNotify_cases hrec hn hs with rfl | ⟨records, w, hready, hcase⟩
  · exact ⟨hrec, le_refl _, _, _, rfl⟩
  · have hlocated : ∀ r ∈ records, s.node r.body = some n ∧ 0 < s.handleCount r.body := by
      intro r hr
      rcases hready.new r hr with hr | ⟨rfl, -⟩
      · exact hrec.located n r hr
      · exact ⟨hn, hcount⟩
    have hfresh : ∀ r ∈ records, ∀ e ∈ r.events, e.token < s.nextToken := by
      intro r hr e he
      rcases hready.new r hr with hr | ⟨-, hr⟩
      · exact hrec.fresh n r hr e he
      · rw [hr] at he
        cases he
    have hmade : Records (update s.notifyList n records) s.node s.handleCount s.signalled
        s.nextToken := hrec.update (le_refl _) hlocated hready.distinct hfresh hrec.logged
    rcases hcase with ⟨-, rfl⟩ | rfl
    · exact ⟨hmade, le_refl _, _, _, rfl⟩
    · refine ⟨?_, Nat.le_succ _, _, _, rfl⟩
      have hlogged : ∀ e ∈ s.signalled, e.token < s.nextToken + 1 := fun e he =>
        Nat.lt_succ_of_lt (hrec.logged e he)
      have hmap := hmade.map (n := n) (appended_body b ⟨event, s.nextToken⟩)
        (Nat.le_succ s.nextToken) ?_ hlogged
      · rw [update_self, update_idem] at hmap
        exact hmap
      · intro r hr e he
        rw [update_self] at hr
        rcases mem_appended he with he | ⟨-, rfl⟩
        · exact Nat.lt_succ_of_lt (hfresh r hr e he)
        · exact Nat.lt_succ_self _

end

/-! ## Keys and opens that come and go -/

theorem Records.nil_of_unbound {lists : Nat → List Record} {node : Nat → Option Nat}
    {handleCount : Nat → Nat} {log : List Armed} {next : Nat}
    (h : Records lists node handleCount log next) (hn : Counted node n 0) : lists n = [] := by
  rw [eq_nil_iff_forall_not_mem]
  exact fun r hr => hn.ne_of_zero (h.located n r hr).1

theorem leaf_not_mem {f : Nat → Option Nat} {m fuel : Nat} {l : List Nat}
    (hleaf : ∀ x, f x ≠ some n) (hm : m ≠ n) (hl : climb f none fuel (some m) = some l) :
    n ∉ l := by
  intro hmem
  obtain ⟨x, hx, hunder⟩ := (mem_climb hl).mp hmem
  cases hx
  exact hm (eq_of_under_leaf hleaf hunder)

theorem Inv.createKey {p : Nat} (h : Inv s) (hn : s.inUse n = false) (hp : s.inUse p = true)
    (hlive : s.deleted p = false) {depth : Nat} (hdepth : s.cmpKeyDepth p = some depth)
    (hlt : depth < cmpHiveMaxDepth) :
    Inv (s.cmpAllocateNode n p) ∧ (s.cmpAllocateNode n p).notifyList = s.notifyList := by
  obtain ⟨hparent, hchildren, hbodies, hdeleted⟩ := h.unused n hn
  have hpn : p ≠ n := fun heq => by
    rw [heq, hn] at hp
    cases hp
  have hleaf : ∀ x, s.parent x ≠ some n := fun x => by
    have := h.children n
    rw [hchildren] at this
    exact this.ne_of_zero
  have hlists : update s.notifyList n [] = s.notifyList := by
    have hzero := h.bodies n
    rw [hbodies] at hzero
    rw [← h.records.nil_of_unbound hzero, update_eq_self]
  have hcounts : update s.subkeyCount n 0 = s.subkeyCount := by
    rw [← hchildren, update_eq_self]
  have hbodyCounts : update s.bodyCount n 0 = s.bodyCount := by
    rw [← hbodies, update_eq_self]
  have hmarks : update s.deleted n false = s.deleted := by
    rw [← hdeleted, update_eq_self]
  rw [State.cmpAllocateNode, hlists, hcounts, hbodyCounts, hmarks]
  refine ⟨⟨fun m => ?_, fun k => ?_, h.bodies, fun k hk => ?_, fun k hk => ?_, h.bound,
    h.records, h.reports.use n⟩, rfl⟩
  · simp only
    by_cases hm : m = n
    · subst hm
      obtain ⟨l, hl, rfl⟩ := map_eq_some_iff.mp hdepth
      have hup : climb (update s.parent m (some p)) none 95 (some p) = some l :=
        climb_update (climb_of_length_le hl (Nat.le_of_lt_succ hlt)) (leaf_not_mem hleaf hpn hl)
      refine ⟨m :: l, ?_⟩
      rw [cmpHiveMaxDepth, climb, if_neg (some_ne_none m), bind_some,
        update_self, hup]
      rfl
    · obtain ⟨l, hl⟩ := h.climbs m
      exact ⟨l, climb_update hl (leaf_not_mem hleaf hm hl)⟩
  · simp only [update_apply]
    split
    case isTrue hk => exact hk ▸ (h.children p).fill hparent
    case isFalse hk =>
      refine (h.children k).other ?_ fun heq => hk (some.inj heq).symm
      rw [hparent]
      simp
  · have hkn : k ≠ n := fun heq => by
      rw [heq] at hk
      simp at hk
    have hk' : s.inUse k = false := by simpa [update_of_ne hkn] using hk
    have hkp : k ≠ p := fun heq => by
      rw [heq, hp] at hk'
      cases hk'
    simp only [update_of_ne hkn, update_of_ne hkp]
    exact h.unused k hk'
  · have hkn : k ≠ n := fun heq => by
      rw [heq, hdeleted] at hk
      cases hk
    have hkp : k ≠ p := fun heq => by
      rw [heq, hlive] at hk
      cases hk
    simp only [update_of_ne hkn, update_of_ne hkp]
    exact h.gone k hk

theorem Inv.freeNode (h : Inv s) (hparent : s.parent n = none) (hchildren : s.subkeyCount n = 0)
    (hbodies : s.bodyCount n = 0) (hreported : ∀ m ∈ s.unreported, m.key ≠ n) : ∃ s', s.freeNode n = some s' ∧ Inv s' ∧
      s'.notifyList = s.notifyList ∧ s'.signalled = s.signalled ∧ s'.nextToken = s.nextToken := by
  have hzero := h.bodies n
  rw [hbodies] at hzero
  rw [State.freeNode, if_pos ⟨h.records.nil_of_unbound hzero, hchildren⟩]
  refine ⟨_, rfl, ⟨h.climbs, h.children, h.bodies, fun k hk => ?_, fun k hk => ?_, h.bound,
    h.records, h.reports.free hreported⟩, rfl, rfl, rfl⟩
  · simp only [update_apply] at hk ⊢
    split at hk
    case isTrue heq =>
      subst heq
      exact ⟨hparent, hchildren, hbodies, if_pos rfl⟩
    case isFalse heq =>
      rw [if_neg heq]
      exact h.unused k hk
  · simp only [update_apply] at hk
    split at hk
    · cases hk
    · exact h.gone k hk

structure SameRecords (s s' : State) : Prop where
  lists : s'.notifyList = s.notifyList
  log : s'.signalled = s.signalled
  next : s'.nextToken = s.nextToken

theorem Inv.deleteKey {p : Nat} (h : Inv s) (huse : s.inUse n = true)
    (hchildren : s.subkeyCount n = 0) (hp : s.parent n = some p)
    (hreported : s.bodyCount n = 0 → ∀ m ∈ s.unreported, m.key ≠ n) :
    ∃ s', s.deleteKey n = some s' ∧ Inv s' ∧ SameRecords s s' := by
  have hleaf : ∀ x, s.parent x ≠ some n := fun x => by
    have := h.children n
    rw [hchildren] at this
    exact this.ne_of_zero
  have hpn : n ≠ p := fun heq => hleaf n (hp.trans (congrArg some heq.symm))
  have hmarked : Inv { s with
      parent := update s.parent n none
      subkeyCount := update s.subkeyCount p (s.subkeyCount p - 1)
      deleted := update s.deleted n true } := by
    refine ⟨fun m => ?_, fun k => ?_, h.bodies, fun k hk => ?_, fun k hk => ?_, h.bound,
      h.records, h.reports⟩
    · by_cases hm : m = n
      · refine ⟨[n], ?_⟩
        rw [hm, cmpHiveMaxDepth, climb, if_neg (some_ne_none n), bind_some]
        simp only [update_self]
        rfl
      · obtain ⟨l, hl⟩ := h.climbs m
        exact ⟨l, climb_update hl (leaf_not_mem hleaf hm hl)⟩
    · simp only [update_apply]
      split
      case isTrue hk => exact hk ▸ (h.children p).clear hp
      case isFalse hk =>
        refine (h.children k).other ?_ (by simp)
        rw [hp]
        exact fun heq => hk (some.inj heq).symm
    · have hkn : k ≠ n := fun heq => by
        have hk : s.inUse k = false := hk
        rw [heq, huse] at hk
        cases hk
      obtain ⟨h1, h2, h3, h4⟩ := h.unused k hk
      refine ⟨?_, ?_, h3, ?_⟩
      · simp only [update_of_ne hkn, h1]
      · simp only [update_apply]
        split
        case isTrue heq => rw [← heq, h2]
        case isFalse => exact h2
      · simp only [update_of_ne hkn, h4]
    · by_cases hkn : k = n
      · subst hkn
        refine ⟨update_self .., ?_⟩
        simp only [update_of_ne hpn, hchildren]
      · have hk : s.deleted k = true := by simpa [update_of_ne hkn] using hk
        obtain ⟨h1, h2⟩ := h.gone k hk
        refine ⟨?_, ?_⟩
        · simp only [update_of_ne hkn, h1]
        · simp only [update_apply]
          split
          case isTrue heq => rw [← heq, h2]
          case isFalse => exact h2
  rw [State.deleteKey, hp]
  simp only
  split
  case isTrue hbodies =>
    obtain ⟨s', hfree, hinv, hlists, hlog, hnext⟩ := hmarked.freeNode (n := n)
      (update_self ..) (by simp only [update_of_ne hpn, hchildren]) hbodies (hreported hbodies)
    exact ⟨s', hfree, hinv, hlists, hlog, hnext⟩
  case isFalse => exact ⟨_, rfl, hmarked, rfl, rfl, rfl⟩

theorem Inv.bindBody (h : Inv s) (huse : s.inUse n = true) (hb : s.node b = none) :
    Inv (s.bindBody n b) := by
  refine ⟨h.climbs, h.children, fun k => ?_, fun k hk => ?_, h.gone, fun c hc => ?_,
    h.records.congr fun m r hr => ?_, h.reports⟩
  · simp only [State.bindBody, update_apply]
    split
    case isTrue hk => exact hk ▸ (h.bodies n).fill hb
    case isFalse hk =>
      refine (h.bodies k).other ?_ fun heq => hk (some.inj heq).symm
      rw [hb]
      exact nofun
  · obtain ⟨h1, h2, h3, h4⟩ := h.unused k hk
    have hkn : k ≠ n := fun heq => by
      have hk : s.inUse k = false := hk
      rw [heq, huse] at hk
      cases hk
    exact ⟨h1, h2, by simp only [State.bindBody, update_of_ne hkn, h3], h4⟩
  · simp only [State.bindBody, update_apply]
    split
    · rfl
    · exact h.bound c hc
  · obtain ⟨hnode, hcount⟩ := h.records.located m r hr
    have hrb : r.body ≠ b := fun heq => by
      rw [heq, hb] at hnode
      cases hnode
    exact ⟨update_of_ne hrb _ _, hcount⟩

theorem Inv.deleteBody (h : Inv s) (hb : s.node b = some n) (hcount : s.handleCount b = 0)
    (hreported : s.deleted n = true → s.bodyCount n - 1 = 0 → ∀ m ∈ s.unreported, m.key ≠ n) :
    ∃ s', s.cmpDeleteKeyBody b = some s' ∧ Inv s' ∧ SameRecords s s' := by
  have hunbound : Inv { s with
      node := update s.node b none
      bodyCount := update s.bodyCount n (s.bodyCount n - 1) } := by
    refine ⟨h.climbs, h.children, fun k => ?_, fun k hk => ?_, h.gone, fun c hc => ?_,
      h.records.congr fun m r hr => ?_, h.reports⟩
    · simp only [update_apply]
      split
      case isTrue hk => exact hk ▸ (h.bodies n).clear hb
      case isFalse hk =>
        refine (h.bodies k).other ?_ nofun
        rw [hb]
        exact fun heq => hk (some.inj heq).symm
    · obtain ⟨h1, h2, h3, h4⟩ := h.unused k hk
      refine ⟨h1, h2, ?_, h4⟩
      simp only [update_apply]
      split
      case isTrue heq => rw [← heq, h3]
      case isFalse => exact h3
    · have hcb : c ≠ b := fun heq => by
        have hc : 0 < s.handleCount c := hc
        rw [heq, hcount] at hc
        cases hc
      simp only [update_of_ne hcb]
      exact h.bound c hc
    · have hpos := (h.records.located m r hr).2
      have hrb : r.body ≠ b := fun heq => by
        rw [heq, hcount] at hpos
        cases hpos
      exact ⟨update_of_ne hrb _ _, hpos⟩
  rw [State.cmpDeleteKeyBody, hb]
  simp only
  split
  case isTrue hlast =>
    obtain ⟨hparent, hchildren⟩ := h.gone n hlast.1
    have hzero : s.bodyCount n - 1 = 0 := by simpa using hlast.2
    obtain ⟨s', hfree, hinv, hlists, hlog, hnext⟩ := hunbound.freeNode (n := n) hparent hchildren
      hlast.2 (hreported hlast.1 hzero)
    exact ⟨s', hfree, hinv, hlists, hlog, hnext⟩
  case isFalse => exact ⟨_, rfl, hunbound, rfl, rfl, rfl⟩

theorem Inv.createHandle (h : Inv s) (hb : (s.node b).isSome) :
    Inv { s with handleCount := update s.handleCount b (s.handleCount b + 1) } := by
  refine ⟨h.climbs, h.children, h.bodies, h.unused, h.gone, fun c hc => ?_,
    h.records.congr fun m r hr => ⟨rfl, ?_⟩, h.reports⟩
  · simp only [update_apply] at hc
    split at hc
    case isTrue heq => exact heq ▸ hb
    case isFalse => exact h.bound c hc
  · simp only [update_apply]
    split
    · exact Nat.succ_pos _
    · exact (h.records.located m r hr).2

theorem inv_initial : Inv State.initial where
  climbs n := ⟨[n], rfl⟩
  children n := .of_forall_ne nofun
  bodies n := by
    by_cases hn : n = 0
    · subst hn
      refine ⟨[0], nodup_singleton 0, rfl, fun b => ?_⟩
      simp [State.initial]
    · have hcount : State.initial.bodyCount n = 0 := if_neg hn
      rw [hcount]
      refine .of_forall_ne fun b => ?_
      simp only [State.initial]
      split
      · exact fun heq => hn (some.inj heq).symm
      · exact nofun
  unused n hn := by
    have hne : n ≠ 0 := by simpa [State.initial] using hn
    exact ⟨rfl, rfl, if_neg hne, rfl⟩
  gone n hn := (nomatch hn)
  bound b hb := (nomatch hb)
  records := ⟨nofun, fun n => nodup_nil, nofun, nofun⟩
  reports := ⟨nofun, nofun⟩

/-! ## One action -/

theorem Inv.leaf (h : Inv s) (hn : s.subkeyCount n = 0) (k : Nat) : s.parent k ≠ some n := by
  have hchildren := h.children n
  rw [hn] at hchildren
  exact hchildren.ne_of_zero

theorem Inv.step (h : Inv s) (ha : s.enabled a = true) (horderly : s.Orderly a) :
    ∃ s', s.step a = some s' ∧ Inv s' ∧ s.nextToken ≤ s'.nextToken ∧
      (SameRecords s s' ∨ (∃ m, a = .report m) ∨ (∃ b, a = .closeHandle b) ∨
        ∃ b event filter subtree recordPool eventsPool n,
          a = .arm b event filter subtree recordPool eventsPool ∧ s.node b = some n) := by
  cases a with
  | createKey n p =>
    simp only [State.enabled, Bool.and_eq_true, Bool.not_eq_true'] at ha
    obtain ⟨⟨⟨hn, hp⟩, hlive⟩, hdepth⟩ := ha
    cases hd : s.cmpKeyDepth p with
    | none =>
      rw [hd] at hdepth
      cases hdepth
    | some depth =>
      rw [hd] at hdepth
      obtain ⟨hinv, hlists⟩ := h.createKey hn hp hlive hd (of_decide_eq_true hdepth)
      exact ⟨_, rfl, hinv, le_refl _, .inl ⟨hlists, rfl, rfl⟩⟩
  | deleteKey n =>
    simp only [State.enabled, Bool.and_eq_true, decide_eq_true_eq] at ha
    obtain ⟨⟨⟨huse, -⟩, hchildren⟩, hparent⟩ := ha
    obtain ⟨p, hp⟩ := isSome_iff_exists.mp hparent
    obtain ⟨s', hs, hinv, hsame⟩ := h.deleteKey huse hchildren hp fun hzero m hm hkey => by
      have hbound := (horderly m hm hkey).1
      omega
    exact ⟨s', hs, hinv, hsame.next.ge, .inl hsame⟩
  | bindBody n b =>
    simp only [State.enabled, Bool.and_eq_true] at ha
    exact ⟨_, rfl, h.bindBody ha.1.1 (isNone_iff_eq_none.mp ha.2), le_refl _,
      .inl ⟨rfl, rfl, rfl⟩⟩
  | deleteBody b =>
    simp only [State.enabled, Bool.and_eq_true, decide_eq_true_eq] at ha
    obtain ⟨n, hn⟩ := isSome_iff_exists.mp ha.1.1
    have hcount : s.bodyCount n ≠ 0 := by
      intro hzero
      have hbodies := h.bodies n
      rw [hzero] at hbodies
      exact hbodies.ne_of_zero hn
    obtain ⟨s', hs, hinv, hsame⟩ := h.deleteBody hn ha.1.2 fun hdeleted hlast =>
      horderly n hn hdeleted (by omega)
    exact ⟨s', hs, hinv, hsame.next.ge, .inl hsame⟩
  | createHandle b => exact ⟨_, rfl, h.createHandle ha, le_refl _, .inl ⟨rfl, rfl, rfl⟩⟩
  | closeHandle b =>
    have hinv := h.close (of_decide_eq_true ha) rfl
    refine ⟨_, rfl, hinv, ?_, .inr (.inr (.inl ⟨b, rfl⟩))⟩
    rcases closeHandle_cases (s := s) (b := b) rfl with ⟨n, r, -, -, -, -, heq⟩ | ⟨-, heq⟩
    · exact (congrArg State.nextToken heq).ge
    · exact (congrArg State.nextToken heq).ge
  | arm b event filter subtree recordPool eventsPool =>
    simp only [State.enabled, Bool.and_eq_true, decide_eq_true_eq] at ha
    cases hn : s.node b with
    | none =>
      rw [hn] at ha
      cases ha.2
    | some n =>
      obtain ⟨hrec, hnext, lists, next, heq⟩ := cmpArmNotify_records h.records hn
        (show s.cmpArmNotify b event filter subtree recordPool eventsPool = _ from rfl) ha.1
      refine ⟨_, rfl, ?_, hnext, .inr (.inr (.inr ⟨b, event, filter, subtree, recordPool,
        eventsPool, n, rfl, hn⟩))⟩
      rw [heq] at hrec hnext ⊢
      exact ⟨h.climbs, h.children, h.bodies, h.unused, h.gone, h.bound, hrec,
        h.reports.mono (Subset.refl _) hnext⟩
  | mutate m =>
    simp only [State.enabled, Bool.and_eq_true, decide_eq_true_eq] at ha
    exact ⟨_, rfl, { h with reports := h.reports.add ha.1.1 ha.1.2.le }, le_refl _, .inl ⟨rfl, rfl, rfl⟩⟩
  | report m =>
    have hm : m ∈ s.unreported := of_decide_eq_true ha
    have hsome : ∃ s', s.reportMutation m = some s' := by
      rw [State.reportMutation, if_pos (h.reports.live m hm)]
      simp only
      split
      · exact ⟨_, rfl⟩
      · rename_i n _
        rw [State.cmpNotifyChange, State.ancestors]
        simp only
        cases s.parent n with
        | none => exact ⟨_, rfl⟩
        | some p =>
          obtain ⟨l, hl⟩ := h.climbs p
          rw [hl]
          exact ⟨_, rfl⟩
    obtain ⟨s', hs⟩ := hsome
    obtain ⟨hrec, lists, log, rfl⟩ := reportMutation_records h.records hs
    exact ⟨_, hs, ⟨h.climbs, h.children, h.bodies, h.unused, h.gone, h.bound, hrec,
      h.reports.mono erase_subset (le_refl _)⟩, le_refl _, .inr (.inl ⟨m, rfl⟩)⟩

theorem Pending.step (hinv : Inv s) (ha : s.enabled a = true) (horderly : s.Orderly a)
    (hs : s.step a = some s') (h : Pending s.notifyList s.signalled t w) (ht : t < s.nextToken) :
    (Signals w s a → Done s'.notifyList s'.signalled t) ∧
      (¬ Signals w s a → Pending s'.notifyList s'.signalled t w) := by
  obtain ⟨s₁, hs₁, -, -, hkind⟩ := hinv.step ha horderly
  rw [hs] at hs₁
  cases hs₁
  rcases hkind with hsame | ⟨m, rfl⟩ | ⟨b, rfl⟩ |
      ⟨b, event, filter, subtree, recordPool, eventsPool, n, rfl, hn⟩
  · have hpending : Pending s'.notifyList s'.signalled t w := by
      rw [hsame.lists, hsame.log]
      exact h
    refine ⟨fun hhit => ?_, fun _ => hpending⟩
    -- a report or a close that leaves all records alone did not hit this one
    rcases hhit with ⟨m, rfl, hhits⟩ | ⟨rfl, hone⟩
    · exact (h.report hinv.records hs).1 hhits
    · exact (h.close hinv.records hs).1 ⟨rfl, hone⟩
  · obtain ⟨hhit, hmiss⟩ := h.report hinv.records hs
    constructor
    · rintro (⟨m', heq, hhits⟩ | ⟨heq, -⟩)
      · cases heq
        exact hhit hhits
      · cases heq
    · exact fun hnot => hmiss fun hhits => hnot (.inl ⟨m, rfl, hhits⟩)
  · obtain ⟨hhit, hmiss⟩ := h.close hinv.records hs
    constructor
    · rintro (⟨m, heq, -⟩ | ⟨heq, hone⟩)
      · cases heq
      · cases heq
        exact hhit ⟨rfl, hone⟩
    · refine fun hnot => hmiss fun ⟨heq, hone⟩ => hnot (.inr ?_)
      subst heq
      exact ⟨rfl, hone⟩
  · refine ⟨?_, fun _ => ?_⟩
    · rintro (⟨m, heq, -⟩ | ⟨heq, -⟩) <;> cases heq
    · exact h.arm hinv.records hn (some.inj hs) ht

theorem Done.step (hinv : Inv s) (ha : s.enabled a = true) (horderly : s.Orderly a)
    (hs : s.step a = some s') (h : Done s.notifyList s.signalled t) (ht : t < s.nextToken) :
    Done s'.notifyList s'.signalled t := by
  obtain ⟨s₁, hs₁, -, -, hkind⟩ := hinv.step ha horderly
  rw [hs] at hs₁
  cases hs₁
  rcases hkind with hsame | ⟨m, rfl⟩ | ⟨b, rfl⟩ |
      ⟨b, event, filter, subtree, recordPool, eventsPool, n, rfl, hn⟩
  · rw [hsame.lists, hsame.log]
    exact h
  · exact h.report hs
  · exact h.close hinv.records hs
  · exact h.arm hinv.records hn (some.inj hs) ht

/-- The open has a record on this node, with this filter and reach. -/
def HasRecord (lists : Nat → List Record) (w : Watch) : Prop :=
  ∃ r ∈ lists w.node, r.body = w.body ∧ r.filter = w.filter ∧ r.subtree = w.subtree

theorem HasRecord.fire (h : HasRecord s.notifyList w) (p : Record → Bool) :
    HasRecord (s.fireNotify n p).notifyList w := by
  obtain ⟨r, hr, hbody, hfilter, hsubtree⟩ := h
  rw [fireNotify_notifyList]
  by_cases hwn : w.node = n
  · exact ⟨fired p r, mem_update.mpr (.inl ⟨hwn, List.mem_map_of_mem (hwn ▸ hr)⟩),
      (fired_body p r).trans hbody, (fired_filter p r).1.trans hfilter,
      (fired_filter p r).2.trans hsubtree⟩
  · exact ⟨r, mem_update.mpr (.inr ⟨hwn, hr⟩), hbody, hfilter, hsubtree⟩

theorem HasRecord.change {change : BitVec 32} (h : HasRecord s.notifyList w)
    (hs : s.cmpNotifyChange n change = some s') : HasRecord s'.notifyList w := by
  obtain ⟨above, -, rfl⟩ := map_eq_some_iff.mp hs
  have hself : HasRecord (s.cmpCheckNotify n change true).notifyList w := h.fire _
  generalize s.cmpCheckNotify n change true = s₁ at hself
  clear hs h
  induction above generalizing s₁ with
  | nil => exact hself
  | cons x above ih => exact ih _ (hself.fire _)

/-- A record outlives everything but the close of the last handle, and keeps its filter. -/
theorem HasRecord.step (hinv : Inv s) (ha : s.enabled a = true) (horderly : s.Orderly a)
    (hs : s.step a = some s') (h : HasRecord s.notifyList w) (hclose : ¬ LastClose w.body s a) :
    HasRecord s'.notifyList w := by
  obtain ⟨s₁, hs₁, -, -, hkind⟩ := hinv.step ha horderly
  rw [hs] at hs₁
  cases hs₁
  rcases hkind with hsame | ⟨m, rfl⟩ | ⟨b, rfl⟩ |
      ⟨b, event, filter, subtree, recordPool, eventsPool, n, rfl, hn⟩
  · rw [hsame.lists]
    exact h
  · rcases reportMutation_cases hs with ⟨-, rfl⟩ | ⟨n, -, hs⟩
    · exact h
    · exact HasRecord.change (s := { s with unreported := s.unreported.erase m }) h hs
  · obtain ⟨r, hr, hbody, hfilter, hsubtree⟩ := h
    rcases closeHandle_cases hs with ⟨n, r', hone, hn, -, -, rfl⟩ | ⟨-, rfl⟩
    · have hne : r.body ≠ b := fun heq => hclose ⟨by rw [← hbody, heq], by rw [← hbody, heq, hone]⟩
      refine ⟨r, mem_update.mpr ?_, hbody, hfilter, hsubtree⟩
      by_cases hwn : w.node = n
      · exact .inl ⟨hwn, (mem_eraseP_body (hinv.records.distinct n)).mpr ⟨hwn ▸ hr, hne⟩⟩
      · exact .inr ⟨hwn, hr⟩
    · exact ⟨r, hr, hbody, hfilter, hsubtree⟩
  · obtain ⟨r, hr, hbody, hfilter, hsubtree⟩ := h
    rcases cmpArmNotify_cases hinv.records hn (some.inj hs) with
      rfl | ⟨records, w', hready, ⟨-, rfl⟩ | rfl⟩
    · exact ⟨r, hr, hbody, hfilter, hsubtree⟩
    · refine ⟨r, mem_update.mpr ?_, hbody, hfilter, hsubtree⟩
      by_cases hwn : w.node = n
      · exact .inl ⟨hwn, hready.old r (hwn ▸ hr)⟩
      · exact .inr ⟨hwn, hr⟩
    · by_cases hwn : w.node = n
      · exact ⟨appended b ⟨event, s.nextToken⟩ r, mem_update.mpr (.inl ⟨hwn,
          List.mem_map_of_mem (hready.old r (hwn ▸ hr))⟩), (appended_body b _ r).trans hbody,
          (appended_filter b _ r).1.trans hfilter, (appended_filter b _ r).2.trans hsubtree⟩
      · exact ⟨r, mem_update.mpr (.inr ⟨hwn, hr⟩), hbody, hfilter, hsubtree⟩

/-! ## Changes that are not reported yet -/

/-- What an action does to the changes that are not reported. -/
def State.unreportedAfter (s : State) : Action → List Mutation
  | .mutate m => s.unreported ++ [m]
  | .report m => s.unreported.erase m
  | _ => s.unreported

def State.parentAfter (s : State) : Action → Nat → Option Nat
  | .createKey node parent => update s.parent node (some parent)
  | .deleteKey node => update s.parent node none
  | _ => s.parent

theorem freeNode_frame (hs : s.freeNode n = some s') :
    s'.unreported = s.unreported ∧ s'.parent = s.parent := by
  rw [State.freeNode] at hs
  split at hs
  · cases hs
    exact ⟨rfl, rfl⟩
  · cases hs

theorem step_after (hinv : Inv s) (hs : s.step a = some s') :
    s'.unreported = s.unreportedAfter a ∧ s'.parent = s.parentAfter a := by
  cases a with
  | createKey | bindBody | createHandle | mutate =>
    cases hs
    exact ⟨rfl, rfl⟩
  | deleteKey n =>
    simp only [State.step, State.deleteKey] at hs
    split at hs
    · rename_i hparent
      cases hs
      exact ⟨rfl, by rw [State.parentAfter, ← hparent, update_eq_self]⟩
    · split at hs
      · exact freeNode_frame hs
      · cases hs
        exact ⟨rfl, rfl⟩
  | deleteBody b =>
    simp only [State.step, State.cmpDeleteKeyBody] at hs
    split at hs
    · cases hs
      exact ⟨rfl, rfl⟩
    · split at hs
      · obtain ⟨hunreported, hparent⟩ := freeNode_frame hs
        exact ⟨hunreported, hparent⟩
      · cases hs
        exact ⟨rfl, rfl⟩
  | closeHandle b =>
    rcases closeHandle_cases hs with ⟨n, r, -, -, -, -, rfl⟩ | ⟨-, rfl⟩
    · exact ⟨rfl, rfl⟩
    · exact ⟨rfl, rfl⟩
  | arm b event filter subtree recordPool eventsPool =>
    cases hs
    rw [State.cmpArmNotify]
    repeat' split
    all_goals exact ⟨rfl, rfl⟩
  | report m =>
    obtain ⟨-, lists, log, rfl⟩ := reportMutation_records hinv.records hs
    exact ⟨rfl, rfl⟩

theorem reaches_update (hleaf : ∀ k, s.parent k ≠ some n) {entry : Option Nat}
    (hparent : s'.parent = update s.parent n entry) {k : Nat} (hk : k ≠ n) :
    Reaches s' w k ↔ Reaches s w k := by
  rw [Reaches, Reaches, hparent, update_of_ne hk]
  refine or_congr_right (and_congr_right fun _ => exists_congr fun p => and_congr_right fun hp => ?_)
  refine under_update_leaf hleaf ?_
  rintro rfl
  exact hleaf k hp

/-- A change of another key hits what it hit, when a leaf comes or goes. -/
theorem Mutation.hits_update (hleaf : ∀ k, s.parent k ≠ some n) {entry : Option Nat}
    (hparent : s'.parent = update s.parent n entry) (hkey : m.key ≠ n) : m.Hits s' w ↔ m.Hits s w := by
  have htarget : m.target s' = m.target s := by
    rw [Mutation.target, Mutation.target, hparent, update_of_ne hkey]
  rw [Mutation.Hits, Mutation.Hits, htarget]
  refine and_congr_right fun _ => exists_congr fun k => and_congr_right fun hk => ?_
  refine reaches_update hleaf hparent ?_
  rw [Mutation.target] at hk
  split at hk
  · rintro rfl
    exact hleaf m.key hk
  · cases hk
    exact hkey

/-- A change of a key that is gone hits the watches on the key itself. -/
theorem Mutation.hits_deleted (hparent : s'.parent = update s.parent m.key none) :
    m.Hits s' w ↔ m.change &&& w.filter ≠ 0 ∧ m.ofParent = false ∧ m.key = w.node := by
  rw [Mutation.Hits, Mutation.target, hparent, update_self]
  refine and_congr_right fun _ => ?_
  cases hof : m.ofParent with
  | true => simp
  | false => simp [Reaches, hparent]

theorem Mutation.hits_of_parent (hparent : s'.parent = s.parent) : m.Hits s' w ↔ m.Hits s w := by
  rw [Mutation.Hits, Mutation.Hits, Mutation.target, Mutation.target, hparent]
  simp only [Reaches, hparent]

/-- A step takes watches from what an unreported change hits, and adds none. -/
theorem Mutation.hits_step (hinv : Inv s) (ha : s.enabled a = true) (hs : s.step a = some s')
    (hm : s.inUse m.key = true) (h : m.Hits s' w) : m.Hits s w := by
  have hparent := (step_after hinv hs).2
  cases a with
  | createKey n p =>
    simp only [State.enabled, Bool.and_eq_true, Bool.not_eq_true'] at ha
    have hn := ha.1.1.1
    refine (Mutation.hits_update (hinv.leaf (hinv.unused n hn).2.1) hparent ?_).mp h
    rintro rfl
    rw [hn] at hm
    cases hm
  | deleteKey n =>
    simp only [State.enabled, Bool.and_eq_true, decide_eq_true_eq] at ha
    by_cases hkey : m.key = n
    · subst hkey
      obtain ⟨hchange, hof, hnode⟩ := (Mutation.hits_deleted hparent).mp h
      exact ⟨hchange, m.key, by simp [Mutation.target, hof], .inl hnode⟩
    · exact (Mutation.hits_update (hinv.leaf ha.1.2) hparent hkey).mp h
  | bindBody | deleteBody | createHandle | closeHandle | arm | mutate | report =>
    exact (Mutation.hits_of_parent hparent).mp h

theorem Pending.armed (h : Pending s.notifyList s.signalled t w) :
    ∃ r ∈ s.notifyList w.node, r.watch w.node = w ∧ r.events ≠ [] ∧ t ∈ r.events.map Armed.token := by
  obtain ⟨r, hr, hbody, hfilter, hsubtree, hcount⟩ := h.held
  have hmem : t ∈ r.events.map Armed.token := count_pos_iff.mp (by omega)
  refine ⟨r, hr, by rw [Record.watch, hbody, hfilter, hsubtree], ?_, hmem⟩
  rintro hnil
  rw [hnil] at hmem
  cases hmem

/-- A change that hits the watch of an append still does after a step that overtakes none. -/
theorem Mutation.keeps_hits (hinv : Inv s) (ha : s.enabled a = true) (horderly : s.Orderly a)
    (hs : s.step a = some s') (hm : m ∈ s.unreported) (hpending : Pending s.notifyList s.signalled t w)
    (h : m.Hits s w) : m.Hits s' w := by
  have hparent := (step_after hinv hs).2
  cases a with
  | createKey n p =>
    simp only [State.enabled, Bool.and_eq_true, Bool.not_eq_true'] at ha
    have hn := ha.1.1.1
    refine (Mutation.hits_update (hinv.leaf (hinv.unused n hn).2.1) hparent ?_).mpr h
    rintro rfl
    rw [hinv.reports.live m hm] at hn
    cases hn
  | deleteKey n =>
    simp only [State.enabled, Bool.and_eq_true, decide_eq_true_eq] at ha
    by_cases hkey : m.key = n
    · obtain ⟨r, hr, hwatch, hevents, -⟩ := hpending.armed
      obtain ⟨-, hreach⟩ := horderly m hm hkey
      obtain ⟨hnode, hof⟩ := hreach w.node r hr hevents (by rw [hwatch]; exact h)
      subst hkey
      exact (Mutation.hits_deleted hparent).mpr ⟨h.1, hof, hnode.symm⟩
    · exact (Mutation.hits_update (hinv.leaf ha.1.2) hparent hkey).mpr h
  | bindBody | deleteBody | createHandle | closeHandle | arm | mutate | report =>
    exact (Mutation.hits_of_parent hparent).mpr h

/-! ## Runs -/

variable {actions : List Action}

theorem Run.inv (hrun : Run State.Orderly s actions s') (h : Inv s) : Inv s' := by
  induction hrun with
  | nil => exact h
  | cons ha horderly hs _ ih =>
    obtain ⟨s₁, hs₁, hinv, -⟩ := h.step ha horderly
    rw [hs] at hs₁
    cases hs₁
    exact ih hinv

theorem Run.done (hrun : Run State.Orderly s actions s') (hinv : Inv s)
    (h : Done s.notifyList s.signalled t) (ht : t < s.nextToken) :
    Done s'.notifyList s'.signalled t := by
  induction hrun with
  | nil => exact h
  | cons ha horderly hs _ ih =>
    obtain ⟨s₁, hs₁, hinv', hnext, -⟩ := hinv.step ha horderly
    rw [hs] at hs₁
    cases hs₁
    exact ih hinv' (h.step hinv ha horderly hs ht) (Nat.lt_of_lt_of_le ht hnext)

theorem Run.pending (hrun : Run State.Orderly s actions s') (hinv : Inv s)
    (h : Pending s.notifyList s.signalled t w) (ht : t < s.nextToken) :
    (Meets (Signals w) s actions → Done s'.notifyList s'.signalled t) ∧
      (¬ Meets (Signals w) s actions → Pending s'.notifyList s'.signalled t w) := by
  induction hrun with
  | nil => exact ⟨fun hmeets => (nomatch hmeets), fun _ => h⟩
  | @cons s _ _ a rest ha horderly hs hrest ih =>
    obtain ⟨s₁, hs₁, hinv', hnext, -⟩ := hinv.step ha horderly
    rw [hs] at hs₁
    cases hs₁
    have ht' := Nat.lt_of_lt_of_le ht hnext
    obtain ⟨hhit, hmiss⟩ := h.step hinv ha horderly hs ht
    by_cases hhits : Signals w s a
    · exact ⟨fun _ => hrest.done hinv' (hhit hhits) ht', fun hnot => absurd (.now hhits) hnot⟩
    · obtain ⟨hlater, hnever⟩ := ih hinv' (hmiss hhits) ht'
      refine ⟨fun hmeets => ?_, fun hnot => hnever fun hmeets => hnot (.later hs hmeets)⟩
      cases hmeets with
      | now hnow => exact absurd hnow hhits
      | later hstep hmeets =>
        rw [hs] at hstep
        cases hstep
        exact hlater hmeets

/-- Nothing signals an append before a change that hits its watch was made, or its open was closed. -/
theorem Run.hits_of_signals (hrun : Run State.Orderly s actions s') (hinv : Inv s)
    (h : Pending s.notifyList s.signalled t w) (ht : t < s.nextToken)
    (hbefore : ∀ m ∈ s.unreported, m.Hits s w → m.made ≤ t) (hsignals : Meets (Signals w) s actions) :
    Meets (Hits w) s actions := by
  induction hrun with
  | nil => cases hsignals
  | @cons s s₁ _ a rest ha horderly hs hrest ih =>
    by_cases hhits : Hits w s a
    · exact .now hhits
    obtain ⟨s₂, hs₂, hinv', hnext, -⟩ := hinv.step ha horderly
    rw [hs] at hs₂
    cases hs₂
    have hnow : ¬ Signals w s a := by
      rintro (⟨m, rfl, hm⟩ | hlast)
      · obtain ⟨r, hr, hwatch, -, hmem⟩ := h.armed
        obtain ⟨e, he, rfl⟩ := List.mem_map.mp hmem
        have hafter := horderly w.node r hr (by rw [hwatch]; exact hm) e he
        exact absurd (hbefore m (of_decide_eq_true ha) hm) (by omega)
      · exact hhits (.inr hlast)
    refine .later hs (ih hinv' ((h.step hinv ha horderly hs ht).2 hnow)
      (Nat.lt_of_lt_of_le ht hnext) (fun m hm hmhits => ?_) ?_)
    · rw [(step_after hinv hs).1] at hm
      have hold (hm : m ∈ s.unreported) : m.made ≤ t :=
        hbefore m hm (Mutation.hits_step hinv ha hs (hinv.reports.live m hm) hmhits)
      cases a with
      | mutate m' =>
        rcases mem_append.mp hm with hm | hm
        · exact hold hm
        · obtain rfl := mem_singleton.mp hm
          have hparent := (step_after hinv hs).2
          exact absurd (.inl ⟨m, rfl, (Mutation.hits_of_parent hparent).mp hmhits⟩) hhits
      | report m' => exact hold (mem_of_mem_erase hm)
      | createKey | deleteKey | bindBody | deleteBody | createHandle | closeHandle | arm => exact hold hm
    · cases hsignals with
      | now hsignal => exact absurd hsignal hnow
      | later hstep hlater =>
        rw [hs] at hstep
        cases hstep
        exact hlater

/-- A change that hits the watch of an append is not reported before the append is signalled, and hits
it still. -/
theorem Run.keeps_hits (hrun : Run State.Orderly s actions s') (hinv : Inv s)
    (h : Pending s.notifyList s.signalled t w) (ht : t < s.nextToken) (hm : m ∈ s.unreported)
    (hhits : m.Hits s w) (hnot : ¬ Meets (Signals w) s actions) : m ∈ s'.unreported ∧ m.Hits s' w := by
  induction hrun with
  | nil => exact ⟨hm, hhits⟩
  | @cons s s₁ _ a rest ha horderly hs hrest ih =>
    obtain ⟨s₂, hs₂, hinv', hnext, -⟩ := hinv.step ha horderly
    rw [hs] at hs₂
    cases hs₂
    have hnow : ¬ Signals w s a := fun hsignal => hnot (.now hsignal)
    refine ih hinv' ((h.step hinv ha horderly hs ht).2 hnow) (Nat.lt_of_lt_of_le ht hnext) ?_
      (Mutation.keeps_hits hinv ha horderly hs hm h hhits) fun hmeets => hnot (.later hs hmeets)
    rw [(step_after hinv hs).1]
    cases a with
    | mutate m' => exact mem_append_left _ hm
    | report m' =>
      refine (mem_erase_of_ne ?_).mpr hm
      rintro rfl
      exact hnow (.inl ⟨m, rfl, hhits⟩)
    | createKey | deleteKey | bindBody | deleteBody | createHandle | closeHandle | arm => exact hm

theorem Run.made (hrun : Run State.Orderly s actions s') (hinv : Inv s)
    (h : Pending s.notifyList s.signalled t w) (ht : t < s.nextToken)
    (hmade : Meets (Made w m) s actions) (hnot : ¬ Meets (Signals w) s actions) :
    m ∈ s'.unreported ∧ m.Hits s' w := by
  induction hrun with
  | nil => cases hmade
  | @cons s s₁ _ a rest ha horderly hs hrest ih =>
    obtain ⟨s₂, hs₂, hinv', hnext, -⟩ := hinv.step ha horderly
    rw [hs] at hs₂
    cases hs₂
    have hpending := (h.step hinv ha horderly hs ht).2 fun hsignal => hnot (.now hsignal)
    have ht' := Nat.lt_of_lt_of_le ht hnext
    have hrest' : ¬ Meets (Signals w) s₁ rest := fun hmeets => hnot (.later hs hmeets)
    cases hmade with
    | now hmake =>
      obtain ⟨rfl, hhits⟩ := hmake
      obtain ⟨hunreported, hparent⟩ := step_after hinv hs
      refine hrest.keeps_hits hinv' hpending ht' ?_ ((Mutation.hits_of_parent hparent).mpr hhits) hrest'
      rw [hunreported]
      exact mem_append_right _ (mem_singleton_self m)
    | later hstep hlater =>
      rw [hs] at hstep
      cases hstep
      exact ih hinv' hpending ht' hlater hrest'

theorem Run.hasRecord (hrun : Run State.Orderly s actions s') (hinv : Inv s)
    (h : HasRecord s.notifyList w) (hclose : ¬ Meets (LastClose w.body) s actions) :
    HasRecord s'.notifyList w := by
  induction hrun with
  | nil => exact h
  | cons ha horderly hs _ ih =>
    obtain ⟨s₁, hs₁, hinv', -⟩ := hinv.step ha horderly
    rw [hs] at hs₁
    cases hs₁
    refine ih hinv' (h.step hinv ha horderly hs fun hlast => hclose (.now hlast)) fun hmeets => ?_
    exact hclose (.later hs hmeets)

/-- **Notifications are delivered exactly once**, where no unreported change is overtaken. In every
state that is reached every action that may be taken can be taken (no assertion fails, every walk to the
root ends and nothing is used that was freed), and each open has at most one record, on the key it is
bound to. The filter and the reach of a record are those of the arm that made it, until the last handle
of the open is closed. An append that an arm makes is held once by that record and by no other, and it
is not signalled, as long as no action of the run signals it; from the first that does it is held by
none, and was signalled once. Before that a change that hits its watch was made, or its open was closed;
and a change that hits it when it is made does so until it is reported. -/
theorem notified_exactly_once {before : List Action} {s : State}
    (hreach : Run State.Orderly State.initial before s) :
    (∀ a, s.enabled a = true → s.Orderly a → ∃ s', s.step a = some s') ∧
    (∀ n, ∀ r ∈ s.notifyList n, s.node r.body = some n ∧
      ∀ m, ∀ r' ∈ s.notifyList m, r'.body = r.body → m = n ∧ r' = r) ∧
    (∀ n, ((s.notifyList n).map Record.body).Nodup) ∧
    (∀ w after s', HasRecord s.notifyList w → Run State.Orderly s after s' →
      ¬ Meets (LastClose w.body) s after → HasRecord s'.notifyList w) ∧
    ∀ b event filter subtree recordPool eventsPool s₁,
      s.enabled (.arm b event filter subtree recordPool eventsPool) = true →
      s.step (.arm b event filter subtree recordPool eventsPool) = some s₁ →
      s₁.nextToken = s.nextToken + 1 →
      ∃ w, w.body = b ∧ s.node b = some w.node ∧
        ((∀ r ∈ s.notifyList w.node, r.body ≠ b) → w.filter = filter ∧ w.subtree = subtree) ∧
        (∀ r ∈ s.notifyList w.node, r.body = b →
          w.filter = r.filter ∧ w.subtree = r.subtree) ∧
        ∀ after s₂, Run State.Orderly s₁ after s₂ →
          (Meets (Signals w) s₁ after → Done s₂.notifyList s₂.signalled s.nextToken) ∧
          (¬ Meets (Signals w) s₁ after → Pending s₂.notifyList s₂.signalled s.nextToken w) ∧
          (Meets (Signals w) s₁ after → Meets (Hits w) s₁ after) ∧
          ∀ m, Meets (Made w m) s₁ after → ¬ Meets (Signals w) s₁ after →
            m ∈ s₂.unreported ∧ m.Hits s₂ w := by
  have hinv := hreach.inv inv_initial
  refine ⟨fun a ha horderly => ?_, fun n r hr => ?_, hinv.records.distinct, ?_, ?_⟩
  · obtain ⟨s', hs, -⟩ := hinv.step ha horderly
    exact ⟨s', hs⟩
  · have hn := (hinv.records.located n r hr).1
    refine ⟨hn, fun m r' hr' hbody => ?_⟩
    have hm := (hinv.records.located m r' hr').1
    rw [hbody, hn] at hm
    cases hm
    exact ⟨rfl, hinv.records.unique hr' hr hbody⟩
  · exact fun w after s' hrecord hrun hclose => hrun.hasRecord hinv hrecord hclose
  · intro b event filter subtree recordPool eventsPool s₁ ha hs hnext
    obtain ⟨s', hs', hinv', -, hkind⟩ := hinv.step ha trivial
    rw [hs] at hs'
    cases hs'
    have hunreported : s₁.unreported = s.unreported := (step_after hinv hs).1
    simp only [State.enabled, Bool.and_eq_true] at ha
    cases hn : s.node b with
    | none =>
      rw [hn] at ha
      cases ha.2
    | some n =>
      obtain ⟨w, hwb, rfl, hfirst, hlater, hpending⟩ :=
        Pending.of_arm hinv.records hn (some.inj hs) hnext
      refine ⟨w, hwb, rfl, hfirst, hlater, fun after s₂ hrun => ?_⟩
      have ht : s.nextToken < s₁.nextToken := by omega
      obtain ⟨hdone, hheld⟩ := hrun.pending hinv' hpending ht
      refine ⟨hdone, hheld, hrun.hits_of_signals hinv' hpending ht fun m hm _ => ?_,
        fun m => hrun.made hinv' hpending ht⟩
      rw [hunreported] at hm
      exact hinv.reports.made m hm

/-! ## Runs that are computed -/

/-- No change waits where a key may go, and nothing was armed since a change that is reported. -/
def State.prompt (s : State) : Action → Bool
  | .deleteKey _ | .deleteBody _ => decide (s.unreported = [])
  | .report m => decide (s.nextToken ≤ m.made)
  | _ => true

theorem Inv.orderly (h : Inv s) (hprompt : s.prompt a = true) : s.Orderly a := by
  cases a with
  | deleteKey | deleteBody =>
    have hnone : s.unreported = [] := of_decide_eq_true hprompt
    simp [State.Orderly, hnone]
  | report m =>
    intro n r hr _ e he
    exact (h.records.fresh n r hr e he).trans_le (of_decide_eq_true hprompt)
  | createKey | bindBody | createHandle | closeHandle | arm | mutate => trivial

def State.perform (allowed : State → Action → Bool) (s : State) : List Action → Option State
  | [] => some s
  | a :: rest =>
    if s.enabled a && allowed s a then (s.step a).bind fun s' => s'.perform allowed rest else none

theorem Run.of_perform {allowed : State → Action → Bool} (h : s.perform allowed actions = some s') :
    Run (fun s a => allowed s a = true) s actions s' := by
  induction actions generalizing s with
  | nil =>
    cases h
    exact .nil
  | cons a rest ih =>
    rw [State.perform] at h
    split at h
    · rename_i ha
      obtain ⟨s₁, hs, h⟩ := bind_eq_some_iff.mp h
      obtain ⟨henabled, hallowed⟩ := Bool.and_eq_true_iff.mp ha
      exact .cons henabled hallowed hs (ih h)
    · cases h

theorem Run.orderly (hrun : Run (fun s a => s.prompt a = true) s actions s') (hinv : Inv s) :
    Run State.Orderly s actions s' := by
  induction hrun with
  | nil => exact .nil
  | cons ha hprompt hs _ ih =>
    have horderly := hinv.orderly hprompt
    obtain ⟨s₁, hs₁, hinv', -⟩ := hinv.step ha horderly
    rw [hs] at hs₁
    cases hs₁
    exact .cons ha horderly hs (ih hinv')

theorem Run.any {allowed : State → Action → Prop} (hrun : Run allowed s actions s') :
    Run (fun _ _ => True) s actions s' := by
  induction hrun with
  | nil => exact .nil
  | cons ha _ hs _ ih => exact .cons ha trivial hs ih

/-- The hive root 1 with a key 5, and a watch for set values on 1 and below. -/
def watched : List Action :=
  [.createKey 1 0, .createKey 5 1, .bindBody 1 1, .createHandle 1, .bindBody 5 2, .createHandle 2,
    .arm 1 9 4 true true true]

/-- A value is set through the open 2 of the key 5. -/
def setValue (made : Nat) : Mutation := ⟨5, false, some 2, 4, made⟩

/-- Two values are set: the event is signalled by the first report, and not by the close after it. -/
theorem notified_exactly_once_set : ∃ s,
    Run State.Orderly State.initial (watched ++ [.mutate (setValue 1), .mutate (setValue 1),
      .report (setValue 1), .report (setValue 1), .closeHandle 1]) s ∧
    s.signalled = [⟨9, 0⟩] ∧ ∀ a, s.enabled a = true → s.Orderly a → ∃ s', s.step a = some s' := by
  have hperform : (State.initial.perform State.prompt (watched ++ [.mutate (setValue 1),
      .mutate (setValue 1), .report (setValue 1), .report (setValue 1), .closeHandle 1])).any fun s =>
        s.signalled = [⟨9, 0⟩] := by decide +kernel
  obtain ⟨s, hs, hsignalled⟩ := Option.any_eq_true _ _ |>.mp hperform
  have hrun := (Run.of_perform hs).orderly inv_initial
  exact ⟨s, hrun, of_decide_eq_true hsignalled, (notified_exactly_once hrun).1⟩

/-- The key 5 is deleted through the open 3 before its value is reported. -/
def deletedFirst : List Action :=
  [.bindBody 5 3, .createHandle 3, .mutate (setValue 1), .deleteKey 5, .mutate ⟨1, false, some 3, 1, 1⟩,
    .report ⟨1, false, some 3, 1, 1⟩, .report (setValue 1)]

/-- The key 6 below 5 is deleted through the open 2, and 5 is unloaded before that is reported. -/
def unloadedFirst : List Action :=
  [.createKey 1 0, .createKey 5 1, .createKey 6 5, .bindBody 6 2, .createHandle 2, .deleteKey 6,
    .mutate ⟨5, false, some 2, 1, 0⟩, .deleteKey 5]

/-- The watch is armed before the value is reported. -/
def armedAfter : List Action :=
  [.createKey 1 0, .createKey 5 1, .bindBody 1 1, .createHandle 1, .bindBody 5 2, .createHandle 2,
    .mutate (setValue 0), .arm 1 9 4 true true true, .report (setValue 0)]

/-- A change is not signalled, one uses a key that was freed, and one signals an event that was armed
after it. -/
theorem change_overtaken :
    (∃ s s', Run (fun _ _ => True) State.initial watched s ∧ (setValue 1).Hits s ⟨1, 1, 4, true⟩ ∧
      Run (fun _ _ => True) s deletedFirst s' ∧ s'.unreported = [] ∧ s'.signalled = []) ∧
    (∃ s, Run (fun _ _ => True) State.initial unloadedFirst s ∧
      s.enabled (.report ⟨5, false, some 2, 1, 0⟩) = true ∧
      s.step (.report ⟨5, false, some 2, 1, 0⟩) = none) ∧
    ∃ s, Run (fun _ _ => True) State.initial armedAfter s ∧ s.signalled = [⟨9, 0⟩] := by
  refine ⟨?_, ?_, ?_⟩
  · have hperform : (State.initial.perform (fun _ _ => true) watched).any fun s =>
        s.parent 5 = some 1 ∧ (s.perform (fun _ _ => true) deletedFirst).any fun s' =>
          s'.unreported = [] ∧ s'.signalled = [] := by decide +kernel
    obtain ⟨s, hs, hafter⟩ := Option.any_eq_true _ _ |>.mp hperform
    obtain ⟨hparent, hafter⟩ := of_decide_eq_true hafter
    obtain ⟨s', hs', hnone⟩ := Option.any_eq_true _ _ |>.mp hafter
    exact ⟨s, s', (Run.of_perform hs).any, ⟨by decide, 5, rfl, .inr ⟨rfl, 1, hparent, .refl 1⟩⟩,
      (Run.of_perform hs').any, of_decide_eq_true hnone⟩
  · have hperform : (State.initial.perform (fun _ _ => true) unloadedFirst).any fun s =>
        s.enabled (.report ⟨5, false, some 2, 1, 0⟩) ∧
          (s.step (.report ⟨5, false, some 2, 1, 0⟩)).isNone := by decide +kernel
    obtain ⟨s, hs, hfault⟩ := Option.any_eq_true _ _ |>.mp hperform
    obtain ⟨henabled, hfault⟩ := of_decide_eq_true hfault
    exact ⟨s, (Run.of_perform hs).any, henabled, isNone_iff_eq_none.mp hfault⟩
  · have hperform : (State.initial.perform (fun _ _ => true) armedAfter).any fun s =>
        s.signalled = [⟨9, 0⟩] := by decide +kernel
    obtain ⟨s, hs, hsignalled⟩ := Option.any_eq_true _ _ |>.mp hperform
    exact ⟨s, (Run.of_perform hs).any, of_decide_eq_true hsignalled⟩

end Proskrnl.Cm.Notify
