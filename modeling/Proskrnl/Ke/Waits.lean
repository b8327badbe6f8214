import Proskrnl.Ke.Signals

/-!
# Waits and the clock

A thread that parks has looked at its objects and found nothing to complete its wait, so the state
it leaves is quiet again. The expiry loop of the clock signals one timer after another.
-/

namespace Proskrnl.Ke
open Outcome List

section
variable {s0 s s' : KeState} {hole : Option ObjId} {busy : Option Tid} {x : ObjId} {t : Tid}

theorem KeInv.retime (hs : KeInv s0 hole busy s) (o : KObject) (timerList : List ObjId)
    (hlist : o.waitList = (s.objects x).waitList) (htype : o.type = (s.objects x).type)
    (hsignal : o.signalState = (s.objects x).signalState) (hlimit : o.limit = (s.objects x).limit)
    (howner : o.ownerThread = (s.objects x).ownerThread)
    (habandoned : o.abandoned = (s.objects x).abandoned)
    (hins : ∀ y, ((s.setObject x o).objects y).inserted = true ↔ y ∈ timerList)
    (hnodup : timerList.Nodup)
    (hon : o.inserted = true → (s.objects x).inserted = true ∨
      (((s.objects x).type = .notificationTimer ∨ (s.objects x).type = .synchronizationTimer) ∧
        ∀ u, x = .timeout u → (s.threads u).timerArmed = true)) :
    KeInv s0 hole busy { s.setObject x o with timerList } := by
  have hother (y : ObjId) (hy : y ≠ x) : (s.setObject x o).objects y = s.objects y := by
    rw [KeState.objects_setObject, if_neg hy]
  have hself : (s.setObject x o).objects x = o := by rw [KeState.objects_setObject, if_pos rfl]
  have hsignals : SameSignals s { s.setObject x o with timerList } := by
    constructor
    case mutantList => intro u; rfl
    all_goals
      intro y
      dsimp only
      by_cases hy : y = x
      · subst hy; rw [hself]; assumption
      · rw [hother y hy]
  have hwaitList (y : ObjId) : ((s.setObject x o).objects y).waitList = (s.objects y).waitList := by
    by_cases hy : y = x
    · subst hy; rw [hself]; exact hlist
    · rw [hother y hy]
  exact
    { waits :=
        { listed := fun y b => by rw [hwaitList]; exact hs.waits.listed y b
          ordered := fun y => by rw [hwaitList]; exact hs.waits.ordered y
          recent := fun y => by rw [hwaitList]; exact hs.waits.recent y
          idle := hs.waits.idle
          form := hs.waits.form
          timer := hs.waits.timer
          inserted := hins
          timers := hnodup
          timeouts := fun u hu => by
            by_cases hx : .timeout u = x
            · subst hx
              rw [hself] at hu
              rcases hon hu with h | h
              · exact hs.waits.timeouts u h
              · exact h.2 u rfl
            · rw [hother _ hx] at hu; exact hs.waits.timeouts u hu
          running := hs.waits.running }
      types := fun y => (hsignals.type y).trans (hs.types y)
      timed := fun y hy => by
        by_cases hyx : y = x
        · subst hyx
          rw [hself] at hy
          rcases hon hy with h | h
          · exact hs.timed y h
          · rw [hs.types] at h; exact h.1
        · rw [hother y hyx] at hy; exact hs.timed y hy
      limits := fun y hy => (hsignals.limit y).trans (hs.limits y hy)
      balanced := fun y => (hs.balanced y).congr (hsignals.type y) (hsignals.signalState y)
        (hsignals.limit y) (hsignals.ownerThread y) (hsignals.abandoned y)
      owners := fun y u => by
        rw [hsignals.type, hsignals.ownerThread]; exact hs.owners y u
      mutants := hs.mutants
      exited := hs.exited
      quiet := hs.quiet.mono (fun _ hb hbusy => ⟨hb, hbusy, rfl⟩) fun _ _ _ _ h => hsignals.ready.mp h
      taken := hs.taken
      events := hs.events }

structure Retimed (x : ObjId) (s s' : KeState) : Prop where
  threads : s'.threads = s.threads
  type : (s'.objects x).type = (s.objects x).type

theorem kiRemoveTimer_ends (hs : KeInv s0 hole busy s) (hin : (s.objects x).inserted = true) :
    Ends Halt.external (kiRemoveTimer x s) fun s' => KeInv s0 hole busy s' ∧ Retimed x s s' ∧
      (s'.objects x).inserted = false := by
  rw [kiRemoveTimer, if_pos hin]
  refine ⟨hs.retime _ _ rfl rfl rfl rfl rfl rfl (fun y => ?_) (hs.waits.timers.erase x) (by simp),
    ⟨rfl, by simp⟩, by simp⟩
  rw [hs.waits.timers.mem_erase_iff, ← hs.waits.inserted, KeState.objects_setObject]
  by_cases hy : y = x <;> simp [hy]

theorem kiInsertTimer_ends {due : UInt64} (hs : KeInv s0 hole busy s)
    (hin : (s.objects x).inserted = false)
    (htype : (s.objects x).type = .notificationTimer ∨ (s.objects x).type = .synchronizationTimer)
    (harmed : ∀ u, x = .timeout u → (s.threads u).timerArmed = true) :
    Ends Halt.external (kiInsertTimer x due s) fun s' => KeInv s0 hole busy s' ∧ Retimed x s s' := by
  rw [kiInsertTimer, if_neg (by rw [hin]; exact Bool.false_ne_true)]
  have hnot : x ∉ s.timerList := fun h => by rw [(hs.waits.inserted x).mpr h] at hin; cases hin
  generalize hp : (fun y : ObjId => decide ((s.objects y).dueTime ≤ due)) = p
  have hperm : (s.timerList.takeWhile p ++ x :: s.timerList.dropWhile p).Perm (x :: s.timerList) := by
    refine perm_middle.trans (.cons x ?_)
    rw [takeWhile_append_dropWhile]
  refine ⟨hs.retime _ _ rfl rfl rfl rfl rfl rfl (fun y => ?_) ?_ fun _ => .inr ⟨htype, harmed⟩,
    rfl, by simp⟩
  · rw [hperm.mem_iff, mem_cons, ← hs.waits.inserted, KeState.objects_setObject]
    by_cases hy : y = x <;> simp [hy]
  · exact hperm.nodup_iff.mpr (nodup_cons.mpr ⟨hnot, hs.waits.timers⟩)

theorem keCancelTimer_ends (hs : KeInv s0 hole busy s) :
    Ends Halt.external (keCancelTimer x s) fun s' =>
      KeInv s0 hole busy s' ∧ Retimed x s s' ∧ (s'.objects x).inserted = false :=
  Ends.ite (kiRemoveTimer_ends hs) fun h => ⟨hs, ⟨rfl, rfl⟩, Bool.eq_false_iff.mpr h⟩

theorem isTimer_ne {type : ObjectType}
    (h : type = .notificationTimer ∨ type = .synchronizationTimer) :
    type ≠ .semaphore ∧ type ≠ .mutant := by
  rcases h with rfl | rfl <;> exact ⟨nofun, nofun⟩

theorem keSetTimerEx_ends {w : Waitable} {dueTime : Int64} {period : Int}
    (hs : KeInv s0 none none s) :
    Ends Halt.external (keSetTimerEx (.waitable w) dueTime period s) (KeInv s0 none none) := by
  rw [keSetTimerEx]
  refine Ends.ite (fun _ => trivial) fun htype => ?_
  refine Ends.ite (fun _ => trivial) fun _ => ?_
  refine (keCancelTimer_ends hs).bind ?_
  rintro s1 ⟨hs1, hsame, hin⟩
  have htimer : (s1.objects (.waitable w)).type = .notificationTimer ∨
      (s1.objects (.waitable w)).type = .synchronizationTimer := by
    rw [hsame.type]
    by_contra h
    exact htype (not_or.mp h)
  have hcleared := hs1.clear (isTimer_ne htimer).1 (isTimer_ne htimer).2
  have hobject : (clear (.waitable w) s1).objects (.waitable w) =
      { s1.objects (.waitable w) with signalState := 0 } := by simp [clear, KeState.setSignal]
  have hperiod : KeInv s0 none none ((clear (.waitable w) s1).setObject (.waitable w)
      { (clear (.waitable w) s1).objects (.waitable w) with period }) := by
    refine hcleared.retime _ (clear (.waitable w) s1).timerList rfl rfl rfl rfl rfl rfl
      (fun y => ?_) hcleared.waits.timers fun h => .inl h
    rw [← hcleared.waits.inserted, KeState.objects_setObject]
    split
    · rename_i h
      rw [h]
    · rfl
  refine (kiInsertTimer_ends hperiod ?_ ?_ fun u hu => by cases hu).mono fun _ h => h.1
  · simpa [hobject] using hin
  · simpa [hobject] using htimer

theorem rearm_ends (hs : KeInv s0 none none s) (hout : (s.objects x).inserted = false)
    (htype : (s.objects x).type = .notificationTimer ∨ (s.objects x).type = .synchronizationTimer)
    (harmed : ∀ u, x = .timeout u → (s.threads u).timerArmed = true) :
    Ends Halt.external (rearm x s) fun s' => KeInv s0 none none s' ∧ Retimed x s s' :=
  Ends.ite (fun _ => kiInsertTimer_ends hs hout htype harmed) fun _ => ⟨hs, rfl, rfl⟩

theorem expireTimers_ends (h0 : Initial s0) (rounds : Nat) (hs : KeInv s0 none none s) :
    Ends Halt.external (expireTimers rounds s) (KeInv s0 none none) := by
  induction rounds generalizing s with
  | zero =>
    rw [expireTimers]
    split
    · exact hs
    · exact Ends.ite (fun _ => hs) fun _ => trivial
  | succ rounds ih =>
    rw [expireTimers]
    split
    · exact hs
    · rename_i x rest hlist
      refine Ends.ite (fun _ => hs) fun _ => ?_
      have hin : (s.objects x).inserted = true :=
        (hs.waits.inserted x).mpr (by rw [hlist]; exact mem_cons_self ..)
      have htimer : (s.objects x).type = .notificationTimer ∨
          (s.objects x).type = .synchronizationTimer := by rw [hs.types]; exact hs.timed x hin
      refine (kiRemoveTimer_ends hs hin).bind ?_
      rintro s1 ⟨hs1, hsame, hout⟩
      refine (rearm_ends hs1 hout (hsame.type ▸ htimer) fun u hu => ?_).bind ?_
      · rw [hsame.threads]; exact hs.waits.timeouts u (hu ▸ hin)
      rintro s2 ⟨hs2, hsame2⟩
      have htype : (s2.objects x).type = (s.objects x).type := hsame2.type.trans hsame.type
      refine (signal_ends h0 hs2 (htype ▸ (isTimer_ne htimer).1)
        (htype ▸ (isTimer_ne htimer).2)).bind ?_
      rintro s3 ⟨hs3, -⟩
      exact ih hs3

theorem kiUpdateClock_ends (h0 : Initial s0) {ticks : UInt64} {rounds : Nat}
    (hs : KeInv s0 none none s) :
    Ends Halt.external (kiUpdateClock ticks rounds s) (KeInv s0 none none) :=
  expireTimers_ends h0 rounds
    { hs with waits := hs.waits.congr (by constructor <;> intros <;> rfl) }

def timeoutBlock (t : Tid) (arming : Nat) : KWaitBlock :=
  ⟨t, .timeout t, statusTimeout.toNat, .waitAny, arming⟩

def armedBlocks (t : Tid) (blocks : List KWaitBlock) (timed : Bool) (arming : Nat) :
    List KWaitBlock :=
  blocks ++ if timed then [timeoutBlock t arming] else []

structure Parked (t : Tid) (blocks : List KWaitBlock) (timed : Bool) (s s' : KeState) : Prop where
  waitList : ∀ x, (s'.objects x).waitList = (s.objects x).waitList ++
    (armedBlocks t blocks timed s.armings).filter fun b => b.object = x
  type : ∀ x, (s'.objects x).type = (s.objects x).type
  signalState : ∀ x, (s'.objects x).signalState =
    if timed = true ∧ x = .timeout t then 0 else (s.objects x).signalState
  limit : ∀ x, (s'.objects x).limit = (s.objects x).limit
  ownerThread : ∀ x, (s'.objects x).ownerThread = (s.objects x).ownerThread
  abandoned : ∀ x, (s'.objects x).abandoned = (s.objects x).abandoned
  inserted : ∀ x, (s'.objects x).inserted = ((s.objects x).inserted || (timed && x == .timeout t))
  timerList : s'.timerList.Perm (if timed then .timeout t :: s.timerList else s.timerList)
  state : (s'.threads t).state = .waiting
  waitBlockList : (s'.threads t).waitBlockList = blocks
  timerArmed : (s'.threads t).timerArmed = timed
  timerWaitBlock : timed = true → (s'.threads t).timerWaitBlock = timeoutBlock t s.armings
  mutantList : (s'.threads t).mutantList = (s.threads t).mutantList
  taken : (s'.threads t).taken = (s.threads t).taken
  threads : ∀ u, u ≠ t → s'.threads u = s.threads u
  current : s'.current = none
  armings : s'.armings = s.armings + 1
  history : s'.history = s.history

structure Parkable (t : Tid) (blocks : List KWaitBlock) (s : KeState) : Prop where
  form : WaitForm t blocks
  arming : ∀ b ∈ blocks, b.arming = s.armings
  ordered : blocks.Pairwise Earlier
  unready : ∀ b ∈ blocks, ¬ (Ready none s b.object t ∧
    (b.waitType = .waitAll → ∀ c ∈ blocks, Ready none s c.object t))

section
variable {blocks : List KWaitBlock} {timed : Bool} {b : KWaitBlock}

theorem Parked.armed_self (h : Parked t blocks timed s s') (hb : b.thread = t) :
    Armed s' b ↔ b ∈ armedBlocks t blocks timed s.armings := by
  rw [Armed, hb, h.state, h.waitBlockList, h.timerArmed, armedBlocks, mem_append]
  cases htimed : timed with
  | false => simp
  | true => simp [h.timerWaitBlock htimed]

theorem Parked.armed_other (h : Parked t blocks timed s s') (hb : b.thread ≠ t) :
    Armed s' b ↔ Armed s b := by
  rw [Armed, Armed, h.threads _ hb]

theorem Parkable.mem (hp : Parkable t blocks s)
    (hb : b ∈ armedBlocks t blocks timed s.armings) : b.thread = t ∧ b.arming = s.armings := by
  rcases mem_append.mp hb with hb | hb
  · exact ⟨(hp.form.mem hb).1, hp.arming b hb⟩
  · split at hb
    · rw [mem_singleton.mp hb]; exact ⟨rfl, rfl⟩
    · cases hb

theorem Parkable.pairwise (hp : Parkable t blocks s) :
    ((armedBlocks t blocks timed s.armings).filter fun b => b.object = x).Pairwise Earlier := by
  rw [armedBlocks, filter_append]
  refine pairwise_append.mpr ⟨hp.ordered.filter _, ?_, fun a ha b hb => ?_⟩
  · split
    · exact (pairwise_singleton _ _).filter _
    · exact .nil
  · -- an object block and the timeout block are on different objects
    obtain ⟨hb, hbx⟩ := mem_filter.mp hb
    obtain ⟨ha, hax⟩ := mem_filter.mp ha
    split at hb
    · obtain ⟨-, ⟨w, hw⟩, -⟩ := hp.form.mem ha
      rw [mem_singleton.mp hb] at hbx
      simp only [decide_eq_true_eq] at hax hbx
      rw [hax, ← hbx] at hw
      cases hw
    · cases hb

theorem WaitInv.park (hs : WaitInv s) (hrunning : (s.threads t).state = .running)
    (hp : Parkable t blocks s) (h : Parked t blocks timed s s') : WaitInv s' where
  listed x b := by
    rw [h.waitList, mem_append, mem_filter, hs.listed]
    by_cases hb : b.thread = t
    · rw [h.armed_self hb]
      constructor
      · rintro (⟨-, hwaiting, -⟩ | ⟨hmem, hx⟩)
        · rw [hb, hrunning] at hwaiting; cases hwaiting
        · exact ⟨by simpa using hx, hmem⟩
      · rintro ⟨hx, hmem⟩
        exact .inr ⟨hmem, by simpa using hx⟩
    · rw [h.armed_other hb]
      constructor
      · rintro (h' | ⟨hmem, -⟩)
        · exact h'
        · exact absurd (hp.mem hmem).1 hb
      · exact .inl
  ordered x := by
    rw [h.waitList]
    refine pairwise_append.mpr ⟨hs.ordered x, hp.pairwise, fun a ha b hb => .inl ?_⟩
    rw [(hp.mem (mem_filter.mp hb).1).2]
    exact hs.recent x a ha
  recent x b hb := by
    rw [h.waitList] at hb
    rw [h.armings]
    rcases mem_append.mp hb with hb | hb
    · exact Nat.lt_succ_of_lt (hs.recent x b hb)
    · rw [(hp.mem (mem_filter.mp hb).1).2]; exact Nat.lt_succ_self _
  idle u hu := by
    have hne : u ≠ t := by rintro rfl; exact hu h.state
    rw [h.threads u hne] at hu ⊢
    exact hs.idle u hu
  form u := by
    by_cases hu : u = t
    · subst hu; rw [h.waitBlockList]; exact hp.form
    · rw [h.threads u hu]; exact hs.form u
  timer u hu := by
    by_cases hut : u = t
    · subst hut
      rw [h.timerArmed] at hu
      exact ⟨s.armings, h.timerWaitBlock hu⟩
    · rw [h.threads u hut] at hu ⊢; exact hs.timer u hu
  inserted x := by
    rw [h.inserted, h.timerList.mem_iff]
    cases timed
    · simpa using hs.inserted x
    · simp only [Bool.true_and, Bool.or_eq_true, beq_iff_eq, if_true, mem_cons, hs.inserted]
      exact or_comm
  timers := by
    refine h.timerList.nodup_iff.mpr ?_
    split
    · refine nodup_cons.mpr ⟨fun hmem => ?_, hs.timers⟩
      have harmed := hs.timeouts t ((hs.inserted _).mpr hmem)
      rw [(hs.idle t (by rw [hrunning]; nofun)).2] at harmed
      cases harmed
    · exact hs.timers
  timeouts u hu := by
    rw [h.inserted, Bool.or_eq_true] at hu
    by_cases hut : u = t
    · subst hut
      rw [h.timerArmed]
      rcases hu with hu | hu
      · have harmed := hs.timeouts u hu
        rw [(hs.idle u (by rw [hrunning]; nofun)).2] at harmed
        cases harmed
      · exact (Bool.and_eq_true _ _ ▸ hu).1
    · rw [h.threads u hut]
      rcases hu with hu | hu
      · exact hs.timeouts u hu
      · have := (Bool.and_eq_true _ _ ▸ hu).2
        simp [hut] at this
  running u := by
    rw [h.current]
    refine ⟨nofun, fun hu => ?_⟩
    by_cases hut : u = t
    · subst hut; rw [h.state] at hu; cases hu
    · rw [h.threads u hut, ← hs.running] at hu
      rw [(hs.running t).mpr hrunning] at hu
      exact absurd (Option.some.inj hu).symm hut

theorem KeInv.park (h0 : Initial s0) (hs : KeInv s0 none none s)
    (hrunning : (s.threads t).state = .running) (htaken : (s.threads t).taken = [])
    (hp : Parkable t blocks s) (h : Parked t blocks timed s s') : KeInv s0 none none s' := by
  have hmutants (u : Tid) : (s'.threads u).mutantList = (s.threads u).mutantList := by
    by_cases hu : u = t
    · subst hu; exact h.mutantList
    · rw [h.threads u hu]
  have hready (y : ObjId) (u : Tid) (hr : Ready none s' y u) : Ready none s y u := by
    refine hr.imp (fun hpos => ⟨?_, nofun⟩) fun hown => ?_
    · have hpos := hpos.1
      rw [h.signalState] at hpos
      split at hpos
      · omega
      · exact hpos
    · rw [h.type, h.ownerThread] at hown; exact hown
  have htimeout : (s0.objects (.timeout t)).type = .notificationTimer := by
    rw [h0.timeouts]; rfl
  exact
    { waits := hs.waits.park hrunning hp h
      types := fun y => by rw [h.type]; exact hs.types y
      timed := fun y hy => by
        rw [h.inserted, Bool.or_eq_true] at hy
        rcases hy with hy | hy
        · exact hs.timed y hy
        · have hy := (Bool.and_eq_true _ _ ▸ hy).2
          rw [beq_iff_eq.mp hy]; exact .inl htimeout
      limits := fun y hy => (h.limit y).trans (hs.limits y hy)
      balanced := fun y => by
        rw [h.history]
        by_cases hy : timed = true ∧ y = .timeout t
        · have hstate : (s'.objects y).signalState = 0 := by rw [h.signalState, if_pos hy]
          have htype : (s'.objects y).type = .notificationTimer := by
            rw [h.type, hs.types, hy.2, htimeout]
          unfold Balanced
          rw [htype]
          exact .inl hstate
        · exact (hs.balanced y).congr (h.type y) (by rw [h.signalState, if_neg hy]) (h.limit y)
            (h.ownerThread y) (h.abandoned y)
      owners := fun y u => by
        rw [hmutants, h.type, h.ownerThread]; exact hs.owners y u
      mutants := fun u => by rw [hmutants]; exact hs.mutants u
      exited := fun u hu => by
        have hne : u ≠ t := by rintro rfl; rw [h.state] at hu; cases hu
        rw [h.threads u hne] at hu ⊢; exact hs.exited u hu
      quiet := by
        intro b hb _ hcomplete
        by_cases hbt : b.thread = t
        · have hmem := (h.armed_self hbt).mp hb
          rw [Completable, hbt, h.waitBlockList] at hcomplete
          rcases mem_append.mp hmem with hmem | hmem
          · exact hp.unready b hmem ⟨hready _ _ hcomplete.1,
              fun hall c hc => hready _ _ (hcomplete.2 hall c hc)⟩
          · -- the timer of the timeout was reset and is not a mutant
            split at hmem
            · rename_i htimed
              rw [mem_singleton.mp hmem] at hcomplete
              rcases hcomplete.1 with ⟨hpos, -⟩ | ⟨hmutant, -⟩
              · rw [h.signalState, if_pos ⟨htimed, rfl⟩] at hpos; omega
              · rw [h.type, hs.types] at hmutant
                exact absurd (htimeout.symm.trans hmutant) (by nofun)
            · cases hmem
        · refine hs.quiet b ((h.armed_other hbt).mp hb) nofun ⟨hready _ _ hcomplete.1, ?_⟩
          intro hall c hc
          exact hready _ _ (hcomplete.2 hall c (by rw [h.threads _ hbt]; exact hc))
      taken := fun u hu _ => by
        by_cases hut : u = t
        · subst hut; rw [h.taken]; exact htaken
        · rw [h.threads u hut] at hu ⊢; exact hs.taken u hu nofun
      events := by rw [h.history]; exact hs.events }

end

end

end Proskrnl.Ke
