import Proskrnl.Ke.Completion

/-!
# Signals, timers and mutants

What the functions that signal keep: each leaves a hole at most, and `KiWaitTest` closes it.
-/

namespace Proskrnl.Ke
open Outcome List

section
variable {s0 s s' : KeState} {hole : Option ObjId} {busy : Option Tid} {x : ObjId} {t : Tid}
  {e : Event}

theorem KeInv.setThread {th : KThread} (hs : KeInv s0 hole busy s)
    (hstate : th.state = (s.threads t).state)
    (hblocks : th.waitBlockList = (s.threads t).waitBlockList)
    (hblock : th.timerWaitBlock = (s.threads t).timerWaitBlock)
    (harmed : th.timerArmed = (s.threads t).timerArmed)
    (hmutants : th.mutantList = (s.threads t).mutantList)
    (htaken : (s.threads t).state = .waiting → th.taken = (s.threads t).taken) :
    KeInv s0 hole busy (s.setThread t th) := by
  have hwaits : SameWaits s (s.setThread t th) := by
    constructor <;> intros <;> simp only [KeState.objects_setThread, KeState.threads_setThread,
      KeState.timerList_setThread, KeState.current_setThread, KeState.armings_setThread] <;>
      split <;> simp_all
  have hlist (u : Tid) : ((s.setThread t th).threads u).mutantList = (s.threads u).mutantList := by
    rw [KeState.threads_setThread]
    split
    · rename_i h
      rw [h, hmutants]
    · rfl
  exact
    { waits := hs.waits.congr hwaits
      types := hs.types
      timed := hs.timed
      limits := hs.limits
      balanced := hs.balanced
      owners := fun x u => by rw [hlist]; exact hs.owners x u
      mutants := fun u => by rw [hlist]; exact hs.mutants u
      exited := fun u hu => by rw [hwaits.state] at hu; rw [hlist]; exact hs.exited u hu
      quiet := hs.quiet.congr hwaits fun _ _ _ _ h => h
      taken := fun u hu hbusy => by
        rw [hwaits.state] at hu
        rw [KeState.threads_setThread]
        split
        · rename_i h
          subst h
          rw [htaken hu]; exact hs.taken u hu hbusy
        · exact hs.taken u hu hbusy
      events := hs.events }

theorem KeInv.setObject (hs : KeInv s0 none none s) (o : KObject) (e : Event)
    (hlist : o.waitList = (s.objects x).waitList) (hins : o.inserted = (s.objects x).inserted)
    (htype : o.type = (s.objects x).type) (hlimit : o.limit = (s.objects x).limit)
    (howner : o.type = .mutant → o.ownerThread = (s.objects x).ownerThread)
    (hbalanced : Balanced (s0.objects x).signalState x o (e :: s.history))
    (he : e.object? = some x) (hok : e.Ok)
    (hsignal : hole = some x ∨
      (hole = none ∧ (0 < o.signalState → 0 < (s.objects x).signalState))) :
    KeInv s0 hole none ((s.setObject x o).note e) := by
  have hwaits : SameWaits s ((s.setObject x o).note e) := by
    constructor
    case waitList => intro y; rw [KeState.objects_note, KeState.objects_setObject]; split <;> simp_all
    case inserted => intro y; rw [KeState.objects_note, KeState.objects_setObject]; split <;> simp_all
    all_goals intros; rfl
  have hother (y : ObjId) (hy : y ≠ x) : ((s.setObject x o).note e).objects y = s.objects y := by
    simp [hy]
  exact
    { waits := hs.waits.congr hwaits
      types := fun y => by
        by_cases hy : y = x
        · subst hy; simpa using htype.trans (hs.types y)
        · rw [hother y hy]; exact hs.types y
      timed := fun y hy => by rw [hwaits.inserted] at hy; exact hs.timed y hy
      limits := fun y hy => by
        by_cases hyx : y = x
        · subst hyx; simpa using hlimit.trans (hs.limits y hy)
        · rw [hother y hyx]; exact hs.limits y hy
      balanced := hs.balanced_change hother rfl he (by simpa using hbalanced)
      owners := fun y u => by
        by_cases hy : y = x
        · subst hy
          simp only [KeState.threads_note, KeState.threads_setObject, KeState.objects_note,
            KeState.objects_setObject, if_true, hs.owners, htype]
          exact and_congr_right fun h => by rw [howner (htype.trans h)]
        · rw [hother y hy]; exact hs.owners y u
      mutants := hs.mutants
      exited := hs.exited
      quiet := by
        refine hs.quiet.congr hwaits fun y u _ _ hready => ?_
        by_cases hy : y = x
        · subst hy
          simp only [Ready, KeState.objects_note, KeState.objects_setObject, if_true] at hready ⊢
          rcases hready with ⟨hpos, hhole⟩ | ⟨hmutant, hown⟩
          · rcases hsignal with h | h
            · exact absurd h hhole
            · exact .inl ⟨h.2 hpos, by simp⟩
          · exact .inr ⟨htype ▸ hmutant, howner hmutant ▸ hown⟩
        · rw [Ready, hother y hy] at hready
          exact hready.imp (fun h => ⟨h.1, by simp⟩) id
      taken := hs.taken
      events := forall_mem_cons.mpr ⟨hok, hs.events⟩ }

theorem signal_ends (h0 : Initial s0) (hs : KeInv s0 none none s)
    (hsem : (s.objects x).type ≠ .semaphore) (hmut : (s.objects x).type ≠ .mutant) :
    Ends Halt.external (signal x s) fun s' => KeInv s0 none none s' ∧ Resumes s s' :=
  (kiWaitTest_ends h0 (hs.setObject { s.objects x with signalState := 1 } (.signalled x) rfl rfl rfl
    rfl (fun h => absurd h hmut) ((hs.balanced x).signalled hsem hmut) rfl trivial (.inl rfl))).mono
    fun _ h => ⟨h.1, h.2.threads, h.2.waiting, h.2.current,
      (suffix_cons _ _).trans h.2.history⟩

theorem KeInv.clear (hs : KeInv s0 none none s) (hsem : (s.objects x).type ≠ .semaphore)
    (hmut : (s.objects x).type ≠ .mutant) : KeInv s0 none none (clear x s) :=
  hs.setObject { s.objects x with signalState := 0 } (.cleared x) rfl rfl rfl rfl
    (fun h => absurd h hmut) ((hs.balanced x).cleared hsem hmut) rfl trivial (.inr ⟨rfl, nofun⟩)

theorem isEvent_iff {type : ObjectType} (h : isEvent type = true) :
    type ≠ .semaphore ∧ type ≠ .mutant := by
  cases type <;> simp_all [isEvent]

theorem keSetEvent_ends (h0 : Initial s0) (hs : KeInv s0 none none s) :
    Ends Halt.external (keSetEvent x s) (KeInv s0 none none) := by
  rw [keSetEvent]
  refine Ends.ite (fun h => ?_) fun _ => trivial
  exact (signal_ends h0 hs (isEvent_iff h).1 (isEvent_iff h).2).mono fun _ h => h.1

theorem keResetEvent_ends (hs : KeInv s0 none none s) :
    Ends Halt.external (keResetEvent x s) (KeInv s0 none none) := by
  rw [keResetEvent]
  refine Ends.ite (fun h => ?_) fun _ => trivial
  exact hs.clear (isEvent_iff h).1 (isEvent_iff h).2

theorem kiPulseEvent_ends (h0 : Initial s0) (hs : KeInv s0 none none s) :
    Ends Halt.external (kiPulseEvent x s) (KeInv s0 none none) := by
  rw [kiPulseEvent]
  refine Ends.ite (fun h => ?_) fun _ => trivial
  refine (signal_ends h0 hs (isEvent_iff h).1 (isEvent_iff h).2).bind fun s' hs' => ?_
  have htype : (s'.objects x).type = (s.objects x).type := by rw [hs'.1.types, hs.types]
  exact hs'.1.clear (htype ▸ (isEvent_iff h).1) (htype ▸ (isEvent_iff h).2)

theorem keReleaseSemaphore_ends {count : Int} (h0 : Initial s0) (hs : KeInv s0 none none s) :
    Ends Halt.external (keReleaseSemaphore x count s) (KeInv s0 none none) := by
  rw [keReleaseSemaphore]
  refine Ends.ite (fun _ => trivial) fun htype => ?_
  refine Ends.ite (fun _ => trivial) fun hcount => ?_
  refine Ends.ite (fun _ => trivial) fun _ => ?_
  refine Ends.ite (fun _ => trivial) fun hlimit => ?_
  rw [not_not] at htype
  exact (kiWaitTest_ends h0 (hs.setObject
    { s.objects x with signalState := (s.objects x).signalState + count } (.released x count)
    rfl rfl rfl rfl (fun _ => rfl) ((hs.balanced x).released htype (by omega) (by omega)) rfl trivial
    (.inl rfl))).mono fun _ h => h.1

theorem mem_unlinkMutant {y : ObjId} {u : Tid} :
    y ∈ ((s.unlinkMutant x).threads u).mutantList ↔ y ∈ (s.threads u).mutantList ∧ y ≠ x := by
  simp [KeState.unlinkMutant]

theorem KeInv.freeMutant (hs : KeInv s0 none none s) (o : KObject) (e : Event)
    (hlist : o.waitList = (s.objects x).waitList) (hins : o.inserted = (s.objects x).inserted)
    (htype : o.type = (s.objects x).type) (hmutant : o.type = .mutant)
    (howner : o.ownerThread = none)
    (hbalanced : Balanced (s0.objects x).signalState x o (e :: s.history))
    (he : e.object? = some x) (hok : e.Ok) :
    KeInv s0 (some x) none (((s.setObject x o).unlinkMutant x).note e) := by
  have hwaits : SameWaits s (((s.setObject x o).unlinkMutant x).note e) := by
    constructor
    case waitList =>
      intro y
      rw [KeState.objects_note, KeState.objects_unlinkMutant, KeState.objects_setObject]
      split <;> simp_all
    case inserted =>
      intro y
      rw [KeState.objects_note, KeState.objects_unlinkMutant, KeState.objects_setObject]
      split <;> simp_all
    all_goals intros; rfl
  have hother (y : ObjId) (hy : y ≠ x) :
      (((s.setObject x o).unlinkMutant x).note e).objects y = s.objects y := by
    simp [hy]
  exact
    { waits := hs.waits.congr hwaits
      types := fun y => by
        by_cases hy : y = x
        · subst hy; simpa using htype.trans (hs.types y)
        · rw [hother y hy]; exact hs.types y
      timed := fun y hy => by rw [hwaits.inserted] at hy; exact hs.timed y hy
      limits := fun y hy => by
        have hyx : y ≠ x := by rintro rfl; rw [← hs.types, ← htype, hmutant] at hy; cases hy
        rw [hother y hyx]; exact hs.limits y hy
      balanced := hs.balanced_change hother rfl he (by simpa using hbalanced)
      owners := fun y u => by
        rw [KeState.threads_note, mem_unlinkMutant, KeState.threads_setObject]
        by_cases hy : y = x
        · subst hy; simp [howner]
        · rw [hother y hy, hs.owners]; simp [hy]
      mutants := fun u => (hs.mutants u).filter _
      exited := fun u hu => by
        rw [hwaits.state] at hu
        show List.filter _ (s.threads u).mutantList = []
        rw [hs.exited u hu, filter_nil]
      quiet := by
        refine hs.quiet.congr hwaits fun y u _ _ hready => ?_
        by_cases hy : y = x
        · subst hy
          rcases hready with ⟨-, hhole⟩ | ⟨-, hown⟩
          · exact absurd rfl hhole
          · simp [howner] at hown
        · rw [Ready, hother y hy] at hready
          exact hready.imp (fun h => ⟨h.1, by simp⟩) id
      taken := fun u hu hbusy => by rw [hwaits.state] at hu; exact hs.taken u hu hbusy
      events := forall_mem_cons.mpr ⟨hok, hs.events⟩ }

structure Released (x : ObjId) (s s' : KeState) : Prop where
  current : s'.current = s.current
  threads : ∀ u, (s.threads u).state ≠ .waiting → s'.threads u =
    { s.threads u with mutantList := (s.threads u).mutantList.filter (· ≠ x) }
  history : .abandoned x :: s.history <:+ s'.history

theorem kiReleaseMutant_abandoned (h0 : Initial s0) (hs : KeInv s0 none none s) :
    Ends Halt.external (kiReleaseMutant x true s) fun s' =>
      KeInv s0 none none s' ∧ Released x s s' := by
  rw [kiReleaseMutant]
  refine Ends.ite (fun _ => trivial) fun htype => ?_
  rw [not_not] at htype
  rw [if_pos rfl]
  exact (kiWaitTest_ends h0 (hs.freeMutant
    { s.objects x with signalState := 1, abandoned := true, ownerThread := none } (.abandoned x)
    rfl rfl rfl htype rfl ((hs.balanced x).abandoned htype) rfl trivial)).mono
    fun _ h => ⟨h.1, h.2.current, fun u hu => h.2.threads u hu, h.2.history⟩

theorem kiReleaseMutant_ends (h0 : Initial s0) (hs : KeInv s0 none none s) :
    Ends Halt.external (kiReleaseMutant x false s) (KeInv s0 none none) := by
  rw [kiReleaseMutant]
  refine Ends.ite (fun _ => trivial) fun htype => ?_
  rw [not_not] at htype
  rw [if_neg Bool.false_ne_true]
  cases hcurrent : s.current with
  | none => trivial
  | some t =>
    dsimp only
    refine Ends.ite (fun _ => trivial) fun howner => ?_
    rw [not_not] at howner
    have hle := ((hs.balanced x).owned htype howner).2.1
    rw [if_neg (by omega)]
    refine Ends.ite (fun hlast => ?_) fun hmore => ?_
    · exact (kiWaitTest_ends h0 (hs.freeMutant
        { s.objects x with signalState := 1, ownerThread := none } (.unlocked t x)
        rfl rfl rfl htype rfl ((hs.balanced x).unlocked htype howner (by omega)) rfl trivial)).mono
        fun _ h => h.1
    · exact hs.setObject { s.objects x with signalState := (s.objects x).signalState + 1 }
        (.unlocked t x) rfl rfl rfl rfl (fun _ => rfl)
        ((hs.balanced x).unlockedOnce htype howner (by omega)) rfl trivial
        (.inr ⟨rfl, fun h => by dsimp only at h; omega⟩)

theorem unlinkMutant_eq (h : ∀ t, x ∉ (s.threads t).mutantList) : s.unlinkMutant x = s := by
  have hthreads : (s.unlinkMutant x).threads = s.threads := by
    funext t
    have hfilter : (s.threads t).mutantList.filter (· ≠ x) = (s.threads t).mutantList :=
      filter_eq_self.mpr fun y hy => by
        simpa using fun heq : y = x => h t (heq ▸ hy)
    simp only [KeState.unlinkMutant, hfilter]
  show { s with threads := (s.unlinkMutant x).threads } = s
  rw [hthreads]

theorem KeInv.closeHole (hs : KeInv s0 (some x) none s) (hlist : (s.objects x).waitList = []) :
    KeInv s0 none none s :=
  { hs with quiet := hs.quiet.of_find?_eq_none hs.waits (by rw [hlist]; rfl) }

theorem obpDeleteMutant_ends (hs : KeInv s0 none none s) :
    Ends Halt.external (obpDeleteMutant x s) (KeInv s0 none none) := by
  rw [obpDeleteMutant]
  refine Ends.ite (fun _ => trivial) fun htype => ?_
  rw [not_not] at htype
  refine Ends.ite (fun _ => hs) fun hlist => ?_
  rw [not_not] at hlist
  have hins : (s.objects x).inserted = false := by
    by_contra h
    rw [Bool.not_eq_false] at h
    rcases hs.timed x h with h | h <;> rw [← hs.types, htype] at h <;> cases h
  have hfree := hs.freeMutant keInitializeMutex (.deleted x) hlist.symm hins.symm htype.symm
    rfl rfl ((hs.balanced x).deleted htype) rfl trivial
  refine Ends.ok ?_
  have hunlink : (if (s.objects x).ownerThread ≠ none then s.unlinkMutant x else s) =
      s.unlinkMutant x := by
    split
    · rfl
    · rename_i howner
      refine (unlinkMutant_eq fun t h => ?_).symm
      exact howner fun hnone => by rw [((hs.owners x t).mp h).2] at hnone; cases hnone
  rw [hunlink]
  exact hfree.closeHole (by simp [keInitializeMutex])

theorem KeInv.restate {th : KThread} {current : Option Tid} (hs : KeInv s0 none none s)
    (hold : (s.threads t).state ≠ .waiting) (hnew : th.state ≠ .waiting)
    (hblocks : th.waitBlockList = (s.threads t).waitBlockList)
    (harmed : th.timerArmed = (s.threads t).timerArmed)
    (hmutants : th.mutantList = (s.threads t).mutantList)
    (hexit : th.state = .terminated → th.mutantList = [])
    (hcurrent : ∀ u, current = some u ↔ ((s.setThread t th).threads u).state = .running) :
    KeInv s0 none none { s.setThread t th with current } := by
  obtain ⟨hnone, hoff⟩ := hs.waits.idle t hold
  have hthread (u : Tid) (hu : u ≠ t) : (s.setThread t th).threads u = s.threads u := by
    rw [KeState.threads_setThread, if_neg hu]
  have hself : (s.setThread t th).threads t = th := by rw [KeState.threads_setThread, if_pos rfl]
  have harm (b : KWaitBlock) : Armed (s.setThread t th) b ↔ Armed s b := by
    by_cases hb : b.thread = t
    · rw [Armed, Armed, hb, hself]
      exact ⟨fun h => absurd h.1 hnew, fun h => absurd h.1 hold⟩
    · rw [Armed, Armed, hthread _ hb]
  exact
    { waits :=
        { listed := fun x b => (hs.waits.listed x b).trans (and_congr_right fun _ => (harm b).symm)
          ordered := hs.waits.ordered
          recent := hs.waits.recent
          idle := fun u hu => by
            by_cases h : u = t
            · subst h
              show ((s.setThread u th).threads u).waitBlockList = [] ∧
                ((s.setThread u th).threads u).timerArmed = false
              rw [hself, hblocks, harmed]; exact ⟨hnone, hoff⟩
            · have hu' : ((s.setThread t th).threads u).state ≠ .waiting := hu
              show ((s.setThread t th).threads u).waitBlockList = [] ∧
                ((s.setThread t th).threads u).timerArmed = false
              rw [hthread u h] at hu' ⊢
              exact hs.waits.idle u hu'
          form := fun u => by
            show WaitForm u ((s.setThread t th).threads u).waitBlockList
            by_cases h : u = t
            · subst h; rw [hself, hblocks]; exact hs.waits.form u
            · rw [hthread u h]; exact hs.waits.form u
          timer := fun u hu => by
            have hu' : ((s.setThread t th).threads u).timerArmed = true := hu
            show ∃ arming, ((s.setThread t th).threads u).timerWaitBlock = _
            by_cases h : u = t
            · subst h; rw [hself, harmed, hoff] at hu'; cases hu'
            · rw [hthread u h] at hu' ⊢; exact hs.waits.timer u hu'
          inserted := hs.waits.inserted
          timers := hs.waits.timers
          timeouts := fun u hu => by
            show ((s.setThread t th).threads u).timerArmed = true
            have hon := hs.waits.timeouts u hu
            by_cases h : u = t
            · subst h; rw [hself, harmed]; exact hon
            · rw [hthread u h]; exact hon
          running := hcurrent }
      types := hs.types
      timed := hs.timed
      limits := hs.limits
      balanced := hs.balanced
      owners := fun x u => by
        show x ∈ ((s.setThread t th).threads u).mutantList ↔ _
        by_cases h : u = t
        · subst h; rw [hself, hmutants]; exact hs.owners x u
        · rw [hthread u h]; exact hs.owners x u
      mutants := fun u => by
        show ((s.setThread t th).threads u).mutantList.Nodup
        by_cases h : u = t
        · subst h; rw [hself, hmutants]; exact hs.mutants u
        · rw [hthread u h]; exact hs.mutants u
      exited := fun u hu => by
        have hu' : ((s.setThread t th).threads u).state = .terminated := hu
        show ((s.setThread t th).threads u).mutantList = []
        by_cases h : u = t
        · subst h; rw [hself] at hu' ⊢; exact hexit hu'
        · rw [hthread u h] at hu' ⊢; exact hs.exited u hu'
      quiet := by
        refine hs.quiet.mono (fun b hb hbusy => ⟨(harm b).mp hb, hbusy, ?_⟩) fun _ _ _ _ h => h
        show ((s.setThread t th).threads b.thread).waitBlockList = _
        by_cases h : b.thread = t
        · rw [h, hself, hblocks]
        · rw [hthread _ h]
      taken := fun u hu _ => by
        have hu' : ((s.setThread t th).threads u).state = .waiting := hu
        show ((s.setThread t th).threads u).taken = []
        by_cases h : u = t
        · subst h; rw [hself] at hu'; exact absurd hu' hnew
        · rw [hthread u h] at hu' ⊢; exact hs.taken u hu' (by simp)
      events := hs.events }

theorem kiReadyThread_initialized (hs : KeInv s0 none none s)
    (hstate : (s.threads t).state = .initialized) :
    Ends Halt.external (kiReadyThread t s) (KeInv s0 none none) := by
  rw [kiReadyThread, if_neg (by rw [hstate]; simp)]
  refine hs.restate (by rw [hstate]; simp) (by simp) rfl rfl rfl (by simp) fun u => ?_
  rw [hs.waits.running, KeState.threads_setThread]
  split
  · rename_i h
    rw [h, hstate]; exact ⟨by simp, by simp⟩
  · rfl

theorem running_stops {th : KThread} (hs : WaitInv s) (ht : s.current = some t)
    (hth : th.state ≠ .running) (u : Tid) :
    none = some u ↔ ((s.setThread t th).threads u).state = .running := by
  rw [KeState.threads_setThread]
  split
  · exact ⟨nofun, fun h => absurd h hth⟩
  · rename_i hu
    refine ⟨nofun, fun h => ?_⟩
    rw [← hs.running, ht] at h
    exact absurd (Option.some.inj h).symm hu

theorem kiYield_ends (hs : KeInv s0 none none s) (ht : s.current = some t) :
    Ends Halt.external (kiYield t s) (KeInv s0 none none) := by
  have hstate := (hs.waits.running t).mp ht
  rw [kiYield, kiReadyThread, if_neg (by rw [hstate]; simp)]
  exact hs.restate (by rw [hstate]; simp) (by simp) rfl rfl rfl (by simp)
    (running_stops hs.waits ht (by simp))

/-- The history since a state says that these mutants were abandoned. -/
def Abandons (xs : List ObjId) (s s' : KeState) : Prop :=
  ∃ new, s'.history = new ++ s.history ∧ ∀ x ∈ xs, Event.abandoned x ∈ new

theorem Abandons.cons {s'' : KeState} {xs : List ObjId} (h : Abandons xs s' s'')
    (hx : .abandoned x :: s.history <:+ s'.history) : Abandons (x :: xs) s s'' := by
  obtain ⟨new, hnew, hmem⟩ := h
  obtain ⟨l, hl⟩ := hx
  refine ⟨new ++ (l ++ [.abandoned x]), ?_, forall_mem_cons.mpr ⟨by simp, fun y hy => ?_⟩⟩
  · rw [hnew, ← hl]; simp
  · exact mem_append_left _ (hmem y hy)

theorem abandonMutants_ends (h0 : Initial s0) {rounds : Nat} (hs : KeInv s0 none none s)
    (hstate : (s.threads t).state = .running)
    (hrounds : (s.threads t).mutantList.length < rounds) :
    Ends Halt.external (abandonMutants t rounds s) fun s' =>
      KeInv s0 none none s' ∧ s'.current = s.current ∧
        s'.threads t = { s.threads t with mutantList := [] } ∧
        Abandons (s.threads t).mutantList s s' := by
  induction rounds generalizing s with
  | zero => omega
  | succ rounds ih =>
    rw [abandonMutants]
    cases hlist : (s.threads t).mutantList with
    | nil => exact ⟨hs, rfl, by rw [← hlist], [], rfl, nofun⟩
    | cons x rest =>
      refine (kiReleaseMutant_abandoned h0 hs).bind ?_
      rintro s' ⟨hs', hreleased⟩
      have hthread := hreleased.threads t (by rw [hstate]; nofun)
      have hnodup := hs.mutants t
      rw [hlist] at hthread hnodup
      have hfilter : (x :: rest).filter (· ≠ x) = rest := by
        rw [filter_cons_of_neg (by simp), filter_eq_self]
        exact fun y hy => by simpa using fun heq : y = x => (nodup_cons.mp hnodup).1 (heq ▸ hy)
      rw [hfilter] at hthread
      refine (ih hs' (by rw [hthread]; exact hstate) ?_).mono ?_
      · rw [hthread]
        rw [hlist, length_cons] at hrounds
        exact Nat.lt_of_succ_lt_succ hrounds
      · rintro s'' ⟨hs'', hcurrent, hthread', habandons⟩
        rw [hthread] at habandons
        exact ⟨hs'', hcurrent.trans hreleased.current, by rw [hthread', hthread],
          habandons.cons hreleased.history⟩

theorem kiTerminateThread_ends (h0 : Initial s0) (hs : KeInv s0 none none s)
    (ht : s.current = some t) :
    Ends Halt.external (kiTerminateThread t s) fun s' => KeInv s0 none none s' ∧
      (s'.threads t).mutantList = [] ∧ Abandons (s.threads t).mutantList s s' := by
  have hstate := (hs.waits.running t).mp ht
  rw [kiTerminateThread]
  refine (abandonMutants_ends h0 hs hstate (Nat.lt_succ_self _)).bind ?_
  rintro s' ⟨hs', hcurrent, hthread, new, hnew, hmem⟩
  have hinv : KeInv s0 none none { s'.setThread t { s'.threads t with
      userApcs := 0, userApcPending := false, apcDeliverPending := false, state := .terminated } with
      current := none } := by
    refine hs'.restate (by rw [hthread, hstate]; nofun) (by nofun) rfl rfl rfl
      (fun _ => by rw [hthread]) (running_stops hs'.waits (hcurrent.trans ht) (by nofun))
  have htype : (s0.objects (.waitable (.thread t))).type = .thread := by rw [h0.headers]
  refine (signal_ends h0 hinv ?_ ?_).mono ?_
  · rw [hinv.types, htype]; nofun
  · rw [hinv.types, htype]; nofun
  · rintro s'' ⟨hs'', hresumes⟩
    obtain ⟨l, hl⟩ := hresumes.history
    refine ⟨hs'', ?_, l ++ new, ?_, fun x hx => mem_append_right _ (hmem x hx)⟩
    · rw [hresumes.threads t (by simp)]
      simp [hthread]
    · rw [append_assoc, ← hnew]
      exact hl.symm

end

end Proskrnl.Ke
