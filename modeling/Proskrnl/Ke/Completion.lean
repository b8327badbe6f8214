import Proskrnl.Ke.Invariant
import Proskrnl.Library.Outcome

/-!
# Completing waits

What `KiSatisfyObject`, `KiUnwaitThread` and `KiWaitTest` keep. The loop of `KiWaitTest` closes the
hole in the invariant that a signal leaves: it ends at an object that is no longer signalled, or at
one none of whose waiters could be completed.
-/

namespace Proskrnl.Ke
open Outcome List

section
variable {o o' : KObject} {t u : Tid} {wasAbandoned : Bool}

section
variable (h : satisfied o t = .ok (wasAbandoned, o'))
include h

theorem satisfied_frame :
    o'.type = o.type ∧ o'.waitList = o.waitList ∧ o'.inserted = o.inserted ∧
      o'.limit = o.limit := by
  rw [satisfied] at h
  split at h
  · cases h; exact ⟨rfl, rfl, rfl, rfl⟩
  · cases h; exact ⟨rfl, rfl, rfl, rfl⟩
  · split at h
    · cases h; exact ⟨rfl, rfl, rfl, rfl⟩
    · cases h
  · split at h
    · cases h
    · split at h <;> (cases h; exact ⟨rfl, rfl, rfl, rfl⟩)
  · cases h; exact ⟨rfl, rfl, rfl, rfl⟩

theorem satisfied_ready (hu : u ≠ t) :
    (0 < o'.signalState → 0 < o.signalState) ∧
      (o'.ownerThread = some u → o.ownerThread = some u) := by
  rw [satisfied] at h
  split at h
  · cases h; exact ⟨by simp, id⟩
  · cases h; exact ⟨by simp, id⟩
  · split at h
    · cases h; exact ⟨fun h => by dsimp only at h; omega, id⟩
    · cases h
  · split at h
    · cases h
    · split at h
      · cases h; exact ⟨fun h => by dsimp only at h; omega, id⟩
      · cases h
        exact ⟨fun h => by dsimp only at h; omega, fun h => absurd (Option.some.inj h).symm hu⟩
  · cases h; exact ⟨id, id⟩

theorem satisfied_owner (htype : o.type = .mutant) :
    o'.ownerThread = some t := by
  rw [satisfied, htype] at h
  dsimp only at h
  split at h
  · cases h
  split at h
  · rename_i hown
    cases h
    exact hown
  · cases h; rfl

end

end

structure Satisfying (x : ObjId) (t : Tid) (wasAbandoned : Bool) (s s' : KeState) : Prop where
  waits : SameWaits s s'
  objects : ∀ y, y ≠ x → s'.objects y = s.objects y
  threads : ∀ u, u ≠ t → s'.threads u = s.threads u
  taken : (s'.threads t).taken = (s.threads t).taken ++ [(x, wasAbandoned)]
  history : s.history <:+ s'.history

section
variable {s0 s : KeState} {hole : Option ObjId} {busy : Option Tid} {x : ObjId} {t : Tid}

def Served (busy : Option Tid) (s : KeState) (t : Tid) : Prop :=
  (s.threads t).state = .running ∨ ((s.threads t).state = .waiting ∧ busy = some t)

theorem Served.ne {u : Tid} (h : Served busy s t) (hu : (s.threads u).state = .waiting)
    (hbusy : busy ≠ some u) : u ≠ t := by
  rintro rfl
  rcases h with h | h
  · rw [hu] at h; cases h
  · exact hbusy h.2

theorem KeInv.balanced_change {s' : KeState} {e : Event} (hs : KeInv s0 hole busy s)
    (hobjects : ∀ y, y ≠ x → s'.objects y = s.objects y) (hhistory : s'.history = e :: s.history)
    (he : e.object? = some x)
    (hx : Balanced (s0.objects x).signalState x (s'.objects x) s'.history) (y : ObjId) :
    Balanced (s0.objects y).signalState y (s'.objects y) s'.history := by
  by_cases hy : y = x
  · subst hy; exact hx
  · rw [hobjects y hy, hhistory]
    exact (hs.balanced y).skip (by rw [he]; simpa using Ne.symm hy)

section
variable (o : KObject) (x : ObjId) (t : Tid) (th : KThread)

@[simp] theorem acquire_state : (acquire o x t th).state = th.state := by
  rw [acquire]; split <;> rfl

@[simp] theorem acquire_waitBlockList : (acquire o x t th).waitBlockList = th.waitBlockList := by
  rw [acquire]; split <;> rfl

@[simp] theorem acquire_timerWaitBlock : (acquire o x t th).timerWaitBlock = th.timerWaitBlock := by
  rw [acquire]; split <;> rfl

@[simp] theorem acquire_timerArmed : (acquire o x t th).timerArmed = th.timerArmed := by
  rw [acquire]; split <;> rfl

end

theorem mem_mutantList_acquire {o : KObject} {th : KThread} {y : ObjId} :
    y ∈ (acquire o x t th).mutantList ↔
      y ∈ th.mutantList ∨ (y = x ∧ o.type = .mutant ∧ o.ownerThread ≠ some t) := by
  rw [acquire]
  split
  · rename_i h
    simp [h.1, h.2]
  · rename_i h
    simp only [not_and] at h
    constructor
    · exact .inl
    · rintro (h' | ⟨-, htype, howner⟩)
      · exact h'
      · exact absurd howner (by simpa using h htype)

theorem acquire_owners {o' : KObject} {wasAbandoned : Bool} (hs : KeInv s0 hole busy s)
    (hsat : kiIsSatisfiable (s.objects x) t = true)
    (ho : satisfied (s.objects x) t = .ok (wasAbandoned, o')) (y : ObjId) (u : Tid) :
    y ∈ (if u = t then { acquire (s.objects x) x t (s.threads t) with
        taken := (s.threads t).taken ++ [(x, wasAbandoned)] } else s.threads u).mutantList ↔
      (if y = x then o' else s.objects y).type = .mutant ∧
        (if y = x then o' else s.objects y).ownerThread = some u := by
  by_cases hy : y = x
  · subst hy
    rw [if_pos rfl, (satisfied_frame ho).1]
    by_cases hmutant : (s.objects y).type = .mutant
    · rw [satisfied_owner ho hmutant]
      have howner := (hs.balanced y).owner_of_satisfiable hmutant hsat
      by_cases hu : u = t
      · subst hu
        simp only [if_true, mem_mutantList_acquire, hs.owners, hmutant, true_and, iff_true]
        exact em _
      · simp only [if_neg hu, hs.owners, hmutant, true_and]
        rcases howner with howner | howner <;> simp [howner, Ne.symm hu]
    · by_cases hu : u = t
      · subst hu
        simp [mem_mutantList_acquire, hs.owners, hmutant]
      · simp [if_neg hu, hs.owners, hmutant]
  · rw [if_neg hy]
    by_cases hu : u = t
    · subst hu
      simp [mem_mutantList_acquire, hs.owners, hy]
    · rw [if_neg hu]
      exact hs.owners y u

theorem acquire_nodup (hs : KeInv s0 hole busy s) :
    (acquire (s.objects x) x t (s.threads t)).mutantList.Nodup := by
  rw [acquire]
  split
  · rename_i h
    refine nodup_append.mpr ⟨hs.mutants t, nodup_singleton x, fun y hy z hz => ?_⟩
    rw [mem_singleton] at hz
    rintro rfl
    subst hz
    exact h.2 ((hs.owners _ t).mp hy).2
  · exact hs.mutants t

theorem kiSatisfyObject_waitable {w : Waitable} (hs : KeInv s0 hole busy s)
    (hsat : kiIsSatisfiable (s.objects (.waitable w)) t = true) (ht : Served busy s t) :
    Ends Halt.external (kiSatisfyObject (.waitable w) t s) fun r =>
      KeInv s0 hole busy r.2 ∧ Satisfying (.waitable w) t r.1 s r.2 := by
  rw [kiSatisfyObject]
  rcases satisfied_eq_ok hsat with hover | ⟨r, o', ho⟩
  · rw [hover]; trivial
  rw [ho]
  obtain ⟨htype, hlist, hins, hlimit⟩ := satisfied_frame ho
  have hbalanced := (hs.balanced (.waitable w)).satisfied hsat ho
  generalize hx : ObjId.waitable w = x at *
  -- the state after it, thread by thread and object by object
  obtain ⟨s', hs'⟩ : ∃ s', noteConsumed x t r
      ((s.setObject x o').setThread t (acquire (s.objects x) x t (s.threads t))) = s' := ⟨_, rfl⟩
  refine Ends.ok ?_
  dsimp only
  rw [hs']
  have hobjects (y : ObjId) : s'.objects y = if y = x then o' else s.objects y := by
    rw [← hs', ← hx]; simp [noteConsumed]
  have hthreads (u : Tid) : s'.threads u = if u = t then
      { acquire (s.objects x) x t (s.threads t) with
        taken := (s.threads t).taken ++ [(x, r)] } else s.threads u := by
    rw [← hs', ← hx]
    simp only [noteConsumed, KeState.threads_note, KeState.threads_setThread, if_true,
      KeState.threads_setObject]
    split
    · congr 2
      rw [acquire]
      split <;> rfl
    · rfl
  have hhistory : s'.history = .consumed t x r :: s.history := by
    rw [← hs', ← hx]; simp [noteConsumed]
  have hwaits : SameWaits s s' :=
    { waitList := fun y => by rw [hobjects]; split <;> simp_all
      inserted := fun y => by rw [hobjects]; split <;> simp_all
      state := fun u => by rw [hthreads]; split <;> simp_all
      waitBlockList := fun u => by rw [hthreads]; split <;> simp_all
      timerWaitBlock := fun u => by rw [hthreads]; split <;> simp_all
      timerArmed := fun u => by rw [hthreads]; split <;> simp_all
      timerList := by rw [← hs', ← hx]; rfl
      current := by rw [← hs', ← hx]; rfl
      armings := by rw [← hs', ← hx]; rfl }
  have hother (y : ObjId) (hy : y ≠ x) : s'.objects y = s.objects y := by
    rw [hobjects, if_neg hy]
  refine ⟨⟨hs.waits.congr hwaits, fun y => ?_, fun y hy => ?_, fun y hy => ?_, ?_, fun y u => ?_, fun u => ?_, fun u hu => ?_, ?_,
    fun u hu hbusy => ?_, ?_⟩, ⟨hwaits, hother, fun u hu => ?_, ?_, ?_⟩⟩
  · rw [hobjects]
    split
    · rename_i hy
      rw [htype, hy]; exact hs.types x
    · exact hs.types y
  · rw [hwaits.inserted] at hy; exact hs.timed y hy
  · rw [hobjects]
    split
    · rename_i hyx
      subst hyx
      rw [hlimit]; exact hs.limits y hy
    · exact hs.limits y hy
  · exact hs.balanced_change hother hhistory rfl (by rw [hobjects, if_pos rfl, hhistory]; exact hbalanced)
  · rw [hobjects, hthreads]
    exact acquire_owners hs hsat ho y u
  · rw [hthreads]
    split
    · exact acquire_nodup hs
    · exact hs.mutants u
  · rw [hwaits.state] at hu
    have hne : u ≠ t := by
      rintro rfl
      rcases ht with ht | ht
      · rw [hu] at ht; cases ht
      · rw [hu] at ht; cases ht.1
    rw [hthreads, if_neg hne]
    exact hs.exited u hu
  · refine hs.quiet.congr hwaits fun y u hu hbusy hready => ?_
    rw [hwaits.state] at hu
    by_cases hy : y = x
    · subst hy
      rw [Ready, hobjects, if_pos rfl, htype] at hready
      have hmono := satisfied_ready ho (ht.ne hu hbusy)
      exact hready.imp (fun h => ⟨hmono.1 h.1, h.2⟩) fun h => ⟨h.1, hmono.2 h.2⟩
    · rw [Ready, hother y hy] at hready
      exact hready
  · rw [hwaits.state] at hu
    rw [hthreads, if_neg (ht.ne hu hbusy)]
    exact hs.taken u hu hbusy
  · rw [hhistory]
    exact forall_mem_cons.mpr ⟨trivial, hs.events⟩
  · rw [hthreads, if_neg hu]
  · rw [hthreads, if_pos rfl]
  · rw [hhistory]; exact suffix_cons ..

theorem kiSatisfyObject_timeout {u : Tid} (h0 : Initial s0) (hs : KeInv s0 hole busy s) :
    kiSatisfyObject (.timeout u) t s = .ok (false, s) := by
  have htype : (s.objects (.timeout u)).type = .notificationTimer := by
    rw [hs.types, h0.timeouts]; rfl
  have hobject : s.setObject (.timeout u) (s.objects (.timeout u)) = s := by
    rw [KeState.setObject, Function.update_eq_self]
  have hthread : s.setThread t (s.threads t) = s := by
    rw [KeState.setThread, Function.update_eq_self]
  have hsatisfied : satisfied (s.objects (.timeout u)) t = .ok (false, s.objects (.timeout u)) := by
    rw [satisfied, htype]
  have hacquire : acquire (s.objects (.timeout u)) (.timeout u) t (s.threads t) = s.threads t := by
    rw [acquire, if_neg (by rw [htype]; simp)]
  rw [kiSatisfyObject, hsatisfied]
  show Except.ok (false, noteConsumed _ _ _ _) = _
  rw [hacquire, hobject, hthread]
  rfl

theorem abandonedStatus_cons (a b : Bool) (status : NtStatus) :
    (if b && (if a && status == statusSuccess then statusAbandonedWait0 else status) ==
        statusSuccess then statusAbandonedWait0
      else if a && status == statusSuccess then statusAbandonedWait0 else status) =
    if (a || b) && status == statusSuccess then statusAbandonedWait0 else status := by
  have hne : (statusAbandonedWait0 == statusSuccess) = false := rfl
  cases a
  · simp only [Bool.false_and, Bool.false_or, Bool.false_eq_true, if_false]
  · cases hst : status == statusSuccess
    · simp only [Bool.and_false, Bool.false_eq_true, if_false, hst]
    · simp only [Bool.and_true, if_true, hne, Bool.and_false, Bool.false_eq_true, if_false,
        Bool.true_or]

/-- The objects of a wait-all are satisfied one by one: they differ, so that taking one leaves the
others as they were. -/
theorem satisfyAll_ends {xs : List ObjId} {status : NtStatus} (hs : KeInv s0 hole busy s)
    (hnodup : xs.Nodup) (hwaitable : ∀ x ∈ xs, ∃ w, x = .waitable w)
    (hsat : ∀ x ∈ xs, kiIsSatisfiable (s.objects x) t = true) (ht : Served busy s t) :
    Ends Halt.external (satisfyAll t xs status s) fun r =>
      KeInv s0 hole busy r.2 ∧ SameWaits s r.2 ∧ (∀ u, u ≠ t → r.2.threads u = s.threads u) ∧
      s.history <:+ r.2.history ∧ ∃ new : List (ObjId × Bool), new.map Prod.fst = xs ∧
        (r.2.threads t).taken = (s.threads t).taken ++ new ∧
        r.1 = if new.any Prod.snd && status == statusSuccess then statusAbandonedWait0
          else status := by
  induction xs generalizing s status with
  | nil =>
    exact ⟨hs, .refl, fun _ _ => rfl, suffix_rfl, [], rfl, (append_nil _).symm, rfl⟩
  | cons x rest ih =>
    obtain ⟨hx, hrest⟩ := nodup_cons.mp hnodup
    obtain ⟨w, rfl⟩ := hwaitable x (mem_cons_self ..)
    rw [satisfyAll]
    refine (kiSatisfyObject_waitable hs (hsat _ (mem_cons_self ..)) ht).bind ?_
    rintro ⟨wasAbandoned, s'⟩ ⟨hs', hsame⟩
    have hserved : Served busy s' t := by
      rw [Served, hsame.waits.state]; exact ht
    refine (ih hs' hrest (fun y hy => hwaitable y (mem_cons_of_mem _ hy)) (fun y hy => ?_)
      hserved).mono ?_
    · rw [hsame.objects y fun h => hx (h ▸ hy)]
      exact hsat y (mem_cons_of_mem _ hy)
    · rintro ⟨status', s''⟩ ⟨hs'', hwaits, hthreads, hhistory, new, hnew, htaken, hstatus⟩
      refine ⟨hs'', hsame.waits.trans hwaits,
        fun u hu => (hthreads u hu).trans (hsame.threads u hu), hsame.history.trans hhistory,
        (.waitable w, wasAbandoned) :: new, by rw [map_cons, hnew], ?_, ?_⟩
      · rw [htaken, hsame.taken, append_assoc, singleton_append]
      · exact hstatus.trans (abandonedStatus_cons ..)

end

section
variable {s0 s : KeState} {hole : Option ObjId} {busy : Option Tid} {t : Tid} {status : NtStatus}

def KThread.blocks (th : KThread) : List KWaitBlock :=
  th.waitBlockList ++ if th.timerArmed then [th.timerWaitBlock] else []

structure Unwaiting (t : Tid) (status : NtStatus) (s s' : KeState) : Prop where
  waitList : ∀ x, (s'.objects x).waitList =
    (s.objects x).waitList.filter (· ∉ (s.threads t).blocks)
  signals : SameSignals s s'
  inserted : ∀ x, (s'.objects x).inserted =
    ((s.objects x).inserted && !((s.threads t).timerArmed && x == .timeout t))
  timerList : s'.timerList =
    if (s.threads t).timerArmed then s.timerList.erase (.timeout t) else s.timerList
  thread : s'.threads t = { s.threads t with
    waitBlockList := [], timerArmed := false, waitStatus := status, state := .ready }
  threads : ∀ u, u ≠ t → s'.threads u = s.threads u
  current : s'.current = s.current
  armings : s'.armings = s.armings
  history : s'.history = .returned t (s.threads t).waitTypeOf (s.threads t).waitObjects status
    (s.threads t).taken :: s.history

theorem disarmTimeout_eq
    (hins : (s.objects (.timeout t)).inserted = true ↔ .timeout t ∈ s.timerList) :
    disarmTimeout t s = .ok { s with
      objects := fun x => { s.objects x with
        waitList := if (s.threads t).timerArmed then
            (s.objects x).waitList.filter (· ∉ [(s.threads t).timerWaitBlock])
          else (s.objects x).waitList
        inserted := (s.objects x).inserted && !((s.threads t).timerArmed && x == .timeout t) }
      timerList := if (s.threads t).timerArmed then s.timerList.erase (.timeout t) else s.timerList
      threads := Function.update s.threads t { s.threads t with timerArmed := false } } := by
  rw [disarmTimeout]
  cases harmed : (s.threads t).timerArmed with
  | false =>
    have hthread : { s.threads t with timerArmed := false } = s.threads t := by rw [← harmed]
    rw [if_neg Bool.false_ne_true, hthread, Function.update_eq_self]
    simp
  | true =>
    rw [if_pos rfl]
    cases hin : (s.objects (.timeout t)).inserted with
    | false =>
      have herase : s.timerList.erase (.timeout t) = s.timerList :=
        erase_of_not_mem fun h => by simp [hins.mpr h] at hin
      have hunlinked : ((s.unlink [(s.threads t).timerWaitBlock]).objects (.timeout t)).inserted =
          false := hin
      dsimp only
      rw [hunlinked, if_neg Bool.false_ne_true, herase]
      refine congrArg Except.ok ?_
      simp only [KeState.unlink, KeState.setThread, KeState.mk.injEq, and_true, if_true]
      funext x
      by_cases hx : x = .timeout t
      · subst hx; simp [hin]
      · simp [hx]
    | true =>
      have hunlinked : ((s.unlink [(s.threads t).timerWaitBlock]).objects (.timeout t)).inserted =
          true := hin
      dsimp only
      rw [hunlinked, if_pos rfl, kiRemoveTimer, hunlinked, if_pos rfl]
      refine congrArg Except.ok ?_
      simp only [KeState.unlink, KeState.setThread, KeState.setObject, KeState.mk.injEq, and_true,
        if_true]
      funext x
      by_cases hx : x = .timeout t
      · subst hx; simp [Function.update_self]
      · simp [hx]

theorem kiUnwaitThread_eq (hs : WaitInv s) (hwaiting : (s.threads t).state = .waiting) :
    ∃ s', kiUnwaitThread t status s = .ok s' ∧ Unwaiting t status s s' := by
  rw [kiUnwaitThread, if_neg (by simpa using hwaiting)]
  dsimp only
  obtain ⟨s1, hs1⟩ : ∃ s1, unlinkBlocks t (s.note (.returned t (s.threads t).waitTypeOf
    (s.threads t).waitObjects status (s.threads t).taken)) = s1 := ⟨_, rfl⟩
  have hobjects (x : ObjId) : s1.objects x = { s.objects x with
      waitList := (s.objects x).waitList.filter (· ∉ (s.threads t).waitBlockList) } := by
    rw [← hs1]; rfl
  have hthreads (u : Tid) : s1.threads u =
      if u = t then { s.threads t with waitBlockList := [] } else s.threads u := by
    rw [← hs1, unlinkBlocks, KeState.threads_setThread]; rfl
  have htimers : s1.timerList = s.timerList := by rw [← hs1]; rfl
  rw [hs1, disarmTimeout_eq (by rw [hobjects, htimers]; exact hs.inserted (.timeout t))]
  show ∃ s', kiReadyThread t _ = .ok s' ∧ _
  rw [kiReadyThread, if_neg (by simp [hthreads, hwaiting])]
  refine ⟨_, rfl, ?_⟩
  constructor
  case waitList =>
    intro x
    cases harmed : (s.threads t).timerArmed <;>
      simp [KThread.blocks, hobjects, hthreads, harmed, List.filter_filter, and_comm]
  case signals =>
    constructor
    case mutantList =>
      intro u
      by_cases hu : u = t
      · subst hu; simp [hthreads]
      · simp [hu, hthreads]
    all_goals intro x; simp [hobjects]
  case inserted => intro x; simp [hobjects, hthreads]
  case timerList => simp [hthreads, htimers]
  case thread => simp [hthreads]
  case threads => intro u hu; simp [hu, hthreads]
  case current => rw [← hs1]; rfl
  case armings => rw [← hs1]; rfl
  case history => rw [← hs1]; rfl

theorem WaitInv.mem_blocks (hs : WaitInv s) {x : ObjId} {b : KWaitBlock}
    (hb : b ∈ (s.objects x).waitList) : b ∈ (s.threads t).blocks ↔ b.thread = t := by
  have harmed := hs.armed hb
  constructor
  · intro hmem
    rcases mem_append.mp hmem with h | h
    · exact ((hs.form t).mem h).1
    · split at h
      · rename_i htimer
        obtain ⟨arming, hblock⟩ := hs.timer t htimer
        rw [mem_singleton.mp h, hblock]
      · cases h
  · rintro rfl
    rcases harmed.2 with h | ⟨htimer, h⟩
    · exact mem_append_left _ h
    · refine mem_append_right _ ?_
      rw [if_pos htimer, mem_singleton]
      exact h

variable {s' : KeState}

theorem Unwaiting.armed (hu : Unwaiting t status s s') {b : KWaitBlock} :
    Armed s' b ↔ Armed s b ∧ b.thread ≠ t := by
  by_cases hb : b.thread = t
  · simp [Armed, hb, hu.thread]
  · simp [Armed, hb, hu.threads _ hb]

theorem WaitInv.unwait (hs : WaitInv s) (hwaiting : (s.threads t).state = .waiting)
    (hu : Unwaiting t status s s') : WaitInv s' where
  listed x b := by
    rw [hu.waitList, mem_filter, hu.armed]
    constructor
    · rintro ⟨hb, hnot⟩
      obtain ⟨hx, harmed⟩ := (hs.listed x b).mp hb
      refine ⟨hx, harmed, fun hthread => ?_⟩
      exact of_decide_eq_true hnot ((hs.mem_blocks hb).mpr hthread)
    · rintro ⟨hx, harmed, hthread⟩
      have hb := (hs.listed x b).mpr ⟨hx, harmed⟩
      exact ⟨hb, by simpa using fun h => hthread ((hs.mem_blocks hb).mp h)⟩
  ordered x := by rw [hu.waitList]; exact (hs.ordered x).filter _
  recent x b hb := by
    rw [hu.waitList] at hb
    rw [hu.armings]
    exact hs.recent x b (mem_filter.mp hb).1
  idle v hv := by
    by_cases h : v = t
    · subst h; rw [hu.thread]; exact ⟨rfl, rfl⟩
    · rw [hu.threads v h] at hv ⊢; exact hs.idle v hv
  form v := by
    by_cases h : v = t
    · subst h; rw [hu.thread]; exact .nil
    · rw [hu.threads v h]; exact hs.form v
  timer v hv := by
    by_cases h : v = t
    · subst h; rw [hu.thread] at hv; cases hv
    · rw [hu.threads v h] at hv ⊢; exact hs.timer v hv
  inserted x := by
    rw [hu.inserted, hu.timerList]
    cases harmed : (s.threads t).timerArmed
    · simpa using hs.inserted x
    · rw [if_pos rfl, hs.timers.mem_erase_iff, ← hs.inserted]
      by_cases hx : x = .timeout t <;> simp [hx]
  timers := by
    rw [hu.timerList]
    split
    · exact hs.timers.erase _
    · exact hs.timers
  timeouts v hv := by
    rw [hu.inserted, Bool.and_eq_true] at hv
    have harmed := hs.timeouts v hv.1
    by_cases h : v = t
    · subst h; simp [harmed] at hv
    · rw [hu.threads v h]; exact harmed
  running v := by
    rw [hu.current]
    by_cases h : v = t
    · subst h
      rw [hu.thread, hs.running, hwaiting]
      exact ⟨nofun, nofun⟩
    · rw [hu.threads v h]; exact hs.running v

theorem KeInv.unwait (hs : KeInv s0 hole (some t) s) (hwaiting : (s.threads t).state = .waiting)
    (hu : Unwaiting t status s s')
    (hreturn : ReturnOk (s.threads t).waitTypeOf (s.threads t).waitObjects status
      (s.threads t).taken) : KeInv s0 hole none s' where
  waits := hs.waits.unwait hwaiting hu
  types x := by rw [hu.signals.type]; exact hs.types x
  timed x hx := by
    rw [hu.inserted, Bool.and_eq_true] at hx
    exact hs.timed x hx.1
  limits x hx := by rw [hu.signals.limit]; exact hs.limits x hx
  balanced x := by
    rw [hu.history]
    exact ((hs.balanced x).skip (by simp [Event.object?])).congr (hu.signals.type x)
      (hu.signals.signalState x) (hu.signals.limit x) (hu.signals.ownerThread x)
      (hu.signals.abandoned x)
  owners x v := by
    rw [hu.signals.mutantList, hu.signals.type, hu.signals.ownerThread]; exact hs.owners x v
  mutants v := by rw [hu.signals.mutantList]; exact hs.mutants v
  exited v hv := by
    by_cases h : v = t
    · subst h; rw [hu.thread] at hv; cases hv
    · rw [hu.threads v h] at hv ⊢; exact hs.exited v hv
  quiet := by
    refine hs.quiet.mono (fun b hb _ => ?_) fun x v _ _ hready => hu.signals.ready.mp hready
    obtain ⟨harmed, hthread⟩ := hu.armed.mp hb
    exact ⟨harmed, fun h => hthread (Option.some.inj h).symm, by rw [hu.threads _ hthread]⟩
  taken v hv _ := by
    have h : v ≠ t := by rintro rfl; rw [hu.thread] at hv; cases hv
    rw [hu.threads v h] at hv ⊢
    exact hs.taken v hv fun h' => h (Option.some.inj h').symm
  events := by
    rw [hu.history]
    exact forall_mem_cons.mpr ⟨hreturn, hs.events⟩

theorem KeInv.serve (hs : KeInv s0 hole none s) : KeInv s0 hole (some t) s :=
  { hs with
    quiet := fun b hb _ => hs.quiet b hb nofun
    taken := fun u hu _ => hs.taken u hu nofun }

theorem kiUnwaitThread_ends (hs : KeInv s0 hole none s)
    (hwaiting : (s.threads t).state = .waiting)
    (hstatus : status ∈ [statusTimeout, statusAlerted, statusUserApc, statusThreadIsTerminating,
      statusInvalidParameter]) :
    Ends Halt.external (kiUnwaitThread t status s) fun s' =>
      KeInv s0 hole none s' ∧ Unwaiting t status s s' := by
  obtain ⟨s', heq, hu⟩ := @kiUnwaitThread_eq s t status hs.waits hwaiting
  rw [heq]
  exact ⟨hs.serve.unwait hwaiting hu (.inl ⟨hs.taken t hwaiting nofun, hstatus⟩), hu⟩

end

section
variable {s0 s s' : KeState} {hole : Option ObjId} {busy : Option Tid} {x : ObjId} {b : KWaitBlock}
  {t : Tid}

theorem KeInv.note (hs : KeInv s0 hole busy s) {e : Event} (he : e.object? = none) (hok : e.Ok) :
    KeInv s0 hole busy (s.note e) where
  waits := hs.waits.congr (by constructor <;> intros <;> rfl)
  types := hs.types
  timed := hs.timed
  limits := hs.limits
  balanced x := (hs.balanced x).skip (by rw [he]; nofun)
  owners := hs.owners
  mutants := hs.mutants
  exited := hs.exited
  quiet := hs.quiet
  taken := hs.taken
  events := forall_mem_cons.mpr ⟨hok, hs.events⟩

/-- What a completed wait leaves as it is, and that its block has left the object's list. -/
structure Woken (x : ObjId) (t : Tid) (s s' : KeState) : Prop where
  threads : ∀ u, u ≠ t → s'.threads u = s.threads u
  state : (s'.threads t).state = .ready
  waitList : (s'.objects x).waitList.length < (s.objects x).waitList.length
  current : s'.current = s.current
  history : s.history <:+ s'.history

theorem WaitInv.block_cases (hs : WaitInv s) (hb : b ∈ (s.objects x).waitList) :
    (s.threads b.thread).state = .waiting ∧ b.object = x ∧
      ((b ∈ (s.threads b.thread).waitBlockList ∧ ∃ w, x = .waitable w) ∨
        (b.waitType = .waitAny ∧ b.waitKey = statusTimeout.toNat ∧ x = .timeout b.thread)) := by
  obtain ⟨hx, hwaiting, hmem⟩ := (hs.listed x b).mp hb
  refine ⟨hwaiting, hx, ?_⟩
  rcases hmem with hmem | ⟨harmed, hblock⟩
  · obtain ⟨-, ⟨w, hw⟩, -⟩ := (hs.form _).mem hmem
    exact .inl ⟨hmem, w, hx ▸ hw⟩
  · obtain ⟨arming, htimer⟩ := hs.timer _ harmed
    rw [htimer] at hblock
    refine .inr ⟨by rw [hblock], by rw [hblock], ?_⟩
    rw [← hx, congrArg KWaitBlock.object hblock]

theorem WaitForm.waitTypeOf (hform : WaitForm t blocks) {th : KThread} (hth : th.waitBlockList = blocks)
    (hb : b ∈ blocks) : th.waitTypeOf = b.waitType := by
  rw [KThread.waitTypeOf, hth]
  cases hblocks : blocks with
  | nil => rw [hblocks] at hb; cases hb
  | cons c rest => exact hform.waitType_eq (by rw [hblocks]; exact mem_cons_self ..) hb

theorem kiUnwaitThread_woken {s1 : KeState} {status : NtStatus} (hs : WaitInv s)
    (hb : b ∈ (s.objects x).waitList) (hsame : SameWaits s s1)
    (hthreads : ∀ u, u ≠ b.thread → s1.threads u = s.threads u)
    (hhistory : s.history <:+ s1.history) (hinv : KeInv s0 hole (some b.thread) s1)
    (hreturn : ReturnOk (s1.threads b.thread).waitTypeOf (s1.threads b.thread).waitObjects status
      (s1.threads b.thread).taken) :
    Ends Halt.external (kiUnwaitThread b.thread status s1) fun s' =>
      KeInv s0 hole none s' ∧ Woken x b.thread s s' := by
  have hwaiting : (s1.threads b.thread).state = .waiting := by
    rw [hsame.state]; exact (hs.armed hb).1
  obtain ⟨s', heq, hu⟩ := @kiUnwaitThread_eq s1 b.thread status hinv.waits hwaiting
  rw [heq]
  refine ⟨hinv.unwait hwaiting hu hreturn, fun u h => (hu.threads u h).trans (hthreads u h),
    by rw [hu.thread], ?_, hu.current.trans hsame.current,
    hhistory.trans (by rw [hu.history]; exact suffix_cons ..)⟩
  have hb1 : b ∈ (s1.objects x).waitList := by rw [hsame.waitList]; exact hb
  rw [hu.waitList, ← hsame.waitList]
  refine length_filter_lt_length_iff_exists.mpr ⟨b, hb1, ?_⟩
  simpa using (hinv.waits.mem_blocks hb1).mpr rfl

/-- The block where the loop stops was queued before all others at which it could stop. -/
theorem WaitInv.first_eligible (hs : WaitInv s) {p : KWaitBlock → Bool}
    (hfind : (s.objects x).waitList.find? p = some b) :
    ∀ a ∈ ((s.objects x).waitList.filter p).map KWaitBlock.arming, b.arming ≤ a := by
  obtain ⟨-, l1, l2, hlist, hbefore⟩ := find?_eq_some_iff_append.mp hfind
  have horder := hs.ordered x
  rw [hlist] at horder ⊢
  intro a ha
  obtain ⟨c, hc, rfl⟩ := List.mem_map.mp ha
  obtain ⟨hc, hp⟩ := mem_filter.mp hc
  rcases mem_append.mp hc with hc | hc
  · exact absurd hp (by simpa using hbefore c hc)
  rcases mem_cons.mp hc with rfl | hc
  · exact le_rfl
  · rcases (pairwise_cons.mp (pairwise_append.mp horder).2.1).1 c hc with h | h
    · exact Nat.le_of_lt h
    · exact Nat.le_of_eq h.1

theorem completeBlock_ends (h0 : Initial s0) (hs : KeInv s0 (some x) none s)
    (hsignal : 0 < (s.objects x).signalState)
    (hfind : (s.objects x).waitList.find? (eligible s) = some b) :
    Ends Halt.external (completeBlock x b s) fun s' =>
      KeInv s0 (some x) none s' ∧ Woken x b.thread s s' := by
  have hb := mem_of_find?_eq_some hfind
  have heligible := find?_some hfind
  obtain ⟨hwaiting, hx, hcases⟩ := hs.waits.block_cases hb
  have hnoted : KeInv s0 (some x) (some b.thread) (s.note (.woke b.arming
      (((s.objects x).waitList.filter (eligible s)).map KWaitBlock.arming))) :=
    KeInv.serve (@KeInv.note s0 s (some x) none hs (.woke _ _) rfl (hs.waits.first_eligible hfind))
  have htaken := hs.taken b.thread hwaiting nofun
  rw [completeBlock]
  generalize hs1 : s.note _ = s1 at hnoted
  have hsame : SameWaits s s1 := by subst hs1; constructor <;> intros <;> rfl
  have hobjects : s1.objects = s.objects := by subst hs1; rfl
  have hthreads : s1.threads = s.threads := by subst hs1; rfl
  have hhistory : s.history <:+ s1.history := by subst hs1; exact suffix_cons ..
  have hserved : Served (some b.thread) s1 b.thread := .inr ⟨by rw [hthreads]; exact hwaiting, rfl⟩
  have hsat : kiIsSatisfiable (s1.objects x) b.thread = true := by
    rw [hobjects, kiIsSatisfiable, decide_eq_true hsignal, Bool.true_or]
  rcases hcases with ⟨hmem, w, rfl⟩ | ⟨hany, hkey, rfl⟩
  · have hform := hs.waits.form b.thread
    cases hwaitType : b.waitType with
    | waitAny =>
      refine (kiSatisfyObject_waitable hnoted hsat hserved).bind ?_
      rintro ⟨wasAbandoned, s2⟩ ⟨hs2, hstep⟩
      refine kiUnwaitThread_woken hs.waits hb (hsame.trans hstep.waits)
        (fun u hu => (hstep.threads u hu).trans (by rw [hthreads]))
        (hhistory.trans hstep.history) hs2 (.inr ?_)
      obtain ⟨-, -, hlt, hget⟩ := hform.mem hmem
      have hlist : (s2.threads b.thread).waitBlockList = (s.threads b.thread).waitBlockList := by
        rw [hstep.waits.waitBlockList, hsame.waitBlockList]
      rw [hform.waitTypeOf hlist hmem, hwaitType]
      refine ⟨b.waitKey, .waitable w, wasAbandoned, hlt, ?_, ?_, rfl⟩
      · rw [KThread.waitObjects, hlist, hget, hx]
      · rw [hstep.taken, hthreads, htaken, nil_append]
    | waitAll =>
      have hall : kiIsWaitAllSatisfiable s b.thread = true := by
        simpa [eligible, hwaitType] using heligible
      refine (satisfyAll_ends hnoted ?_ ?_ ?_ hserved).bind ?_
      · rw [KThread.waitObjects, hsame.waitBlockList]
        exact hform.nodup hmem hwaitType
      · intro y hy
        rw [KThread.waitObjects, hsame.waitBlockList] at hy
        obtain ⟨c, hc, rfl⟩ := List.mem_map.mp hy
        exact (hform.mem hc).2.1
      · intro y hy
        rw [KThread.waitObjects, hsame.waitBlockList] at hy
        obtain ⟨c, hc, rfl⟩ := List.mem_map.mp hy
        rw [hobjects]
        exact List.all_eq_true.mp hall c hc
      · rintro ⟨status, s2⟩ ⟨hs2, hwaits, hothers, hhistory2, new, hnew, htaken2, hstatus⟩
        refine kiUnwaitThread_woken hs.waits hb (hsame.trans hwaits)
          (fun u hu => (hothers u hu).trans (by rw [hthreads])) (hhistory.trans hhistory2) hs2
          (.inr ?_)
        have hlist : (s2.threads b.thread).waitBlockList = (s.threads b.thread).waitBlockList := by
          rw [hwaits.waitBlockList, hsame.waitBlockList]
        rw [hform.waitTypeOf hlist hmem, hwaitType]
        rw [htaken2, hthreads, htaken, nil_append]
        refine ⟨?_, ?_⟩
        · rw [hnew, KThread.waitObjects, KThread.waitObjects, hwaits.waitBlockList]
        · rw [show (statusSuccess == statusSuccess) = true from rfl, Bool.and_true] at hstatus
          exact hstatus
  · rw [hany]
    dsimp only
    rw [kiSatisfyObject_timeout h0 hnoted]
    refine kiUnwaitThread_woken hs.waits hb hsame (fun u _ => by rw [hthreads]) hhistory hnoted
      (.inl ?_)
    refine ⟨by rw [hthreads]; exact htaken, ?_⟩
    rw [hkey]
    exact mem_cons_self ..

structure Resumes (s s' : KeState) : Prop where
  threads : ∀ u, (s.threads u).state ≠ .waiting → s'.threads u = s.threads u
  waiting : ∀ u, (s.threads u).state = .waiting →
    s'.threads u = s.threads u ∨ (s'.threads u).state = .ready
  current : s'.current = s.current
  history : s.history <:+ s'.history

theorem Resumes.refl : Resumes s s := ⟨fun _ _ => rfl, fun _ _ => .inl rfl, rfl, suffix_rfl⟩

theorem Woken.resumes (h : Woken x t s s') (ht : (s.threads t).state = .waiting) :
    Resumes s s' where
  threads u hu := h.threads u fun heq => hu (heq ▸ ht)
  waiting u _ := by
    by_cases heq : u = t
    · subst heq; exact .inr h.state
    · exact .inl (h.threads u heq)
  current := h.current
  history := h.history

theorem Resumes.trans {s'' : KeState} (h : Resumes s s') (h' : Resumes s' s'') : Resumes s s'' where
  threads u hu := by
    have heq := h.threads u hu
    exact (h'.threads u (by rw [heq]; exact hu)).trans heq
  waiting u hu := by
    rcases h.waiting u hu with heq | hready
    · rcases h'.waiting u (by rw [heq]; exact hu) with heq' | hready'
      · exact .inl (heq'.trans heq)
      · exact .inr hready'
    · refine .inr ?_
      rw [h'.threads u (by rw [hready]; nofun)]
      exact hready
  current := h'.current.trans h.current
  history := h.history.trans h'.history

theorem Quiet.of_unsignalled (h : Quiet (some x) none s) (hsignal : (s.objects x).signalState ≤ 0) :
    Quiet none none s := by
  refine h.mono (fun b hb hbusy => ⟨hb, hbusy, rfl⟩) fun y t _ _ hready => hready.imp ?_ id
  rintro ⟨hpos, -⟩
  refine ⟨hpos, fun heq => ?_⟩
  cases heq
  omega

/-- The hole is closed at an object none of whose waiters could be completed. -/
theorem Quiet.of_find?_eq_none (hs : WaitInv s) (h : Quiet (some x) none s)
    (hfind : (s.objects x).waitList.find? (eligible s) = none) : Quiet none none s := by
  intro b hb _ hcomplete
  -- the object itself is among those the block's wait needs, or the hole does not matter
  have hready (y : ObjId) (hy : y ≠ x) (hr : Ready none s y b.thread) :
      Ready (some x) s y b.thread :=
    hr.imp (fun hr => ⟨hr.1, fun heq => hy (Option.some.inj heq).symm⟩) id
  have hsat (y : ObjId) (hr : Ready none s y b.thread) :
      kiIsSatisfiable (s.objects y) b.thread = true := by
    rcases hr with hr | hr
    · rw [kiIsSatisfiable, decide_eq_true hr.1, Bool.true_or]
    · rw [kiIsSatisfiable, hr.1, hr.2]; simp
  have hnone (c : KWaitBlock) (hc : c ∈ (s.objects x).waitList) : eligible s c = false := by
    simpa using find?_eq_none.mp hfind c hc
  by_cases hx : b.object = x
  · have hne := hnone b ((hs.listed x b).mpr ⟨hx, hb⟩)
    cases hwaitType : b.waitType with
    | waitAny => simp [eligible, hwaitType] at hne
    | waitAll =>
      rw [eligible, hwaitType, kiIsWaitAllSatisfiable] at hne
      refine absurd (List.all_eq_true.mpr fun c hc => ?_) (by simpa using hne)
      exact hsat _ (hcomplete.2 hwaitType c hc)
  · refine h b hb (by simp) ⟨hready _ hx hcomplete.1, fun hall c hc => ?_⟩
    by_cases hcx : c.object = x
    · -- a block of the same wait-all on the object would be one where the loop stops
      have hthread := ((hs.form _).mem hc).1
      have hlisted : c ∈ (s.objects x).waitList := by
        refine (hs.listed x c).mpr ⟨hcx, ?_⟩
        rw [Armed, hthread]
        exact ⟨hb.1, .inl hc⟩
      have hne := hnone c hlisted
      rw [eligible, kiIsWaitAllSatisfiable, hthread] at hne
      refine absurd (List.all_eq_true.mpr fun d hd => ?_) (by simpa using (Bool.or_eq_false_iff.mp hne).2)
      exact hsat _ (hcomplete.2 hall d hd)
    · exact hready _ hcx (hcomplete.2 hall c hc)

theorem waitTestFrom_ends (h0 : Initial s0) (rounds : Nat) (hs : KeInv s0 (some x) none s)
    (hrounds : (s.objects x).waitList.length < rounds) :
    Ends Halt.external (waitTestFrom rounds x s) fun s' => KeInv s0 none none s' ∧ Resumes s s' := by
  induction rounds generalizing s with
  | zero => omega
  | succ rounds ih =>
    rw [waitTestFrom]
    refine Ends.ite (fun hsignal => ?_) fun hsignal => ?_
    · exact ⟨{ hs with quiet := hs.quiet.of_unsignalled hsignal }, .refl⟩
    cases hfind : (s.objects x).waitList.find? (eligible s) with
    | none => exact ⟨{ hs with quiet := hs.quiet.of_find?_eq_none hs.waits hfind }, .refl⟩
    | some b =>
      refine (completeBlock_ends h0 hs (by omega) hfind).bind ?_
      rintro s' ⟨hs', hwoken⟩
      have hwaiting := (hs.waits.armed (mem_of_find?_eq_some hfind)).1
      refine (ih hs' (by have := hwoken.waitList; omega)).mono ?_
      rintro s'' ⟨hs'', hresumes⟩
      exact ⟨hs'', (hwoken.resumes hwaiting).trans hresumes⟩

/-- **`KiWaitTest`** ends, and closes the hole that a signal leaves. -/
theorem kiWaitTest_ends (h0 : Initial s0) (hs : KeInv s0 (some x) none s) :
    Ends Halt.external (kiWaitTest x s) fun s' => KeInv s0 none none s' ∧ Resumes s s' :=
  waitTestFrom_ends h0 _ hs (Nat.lt_succ_self _)

end

end Proskrnl.Ke
