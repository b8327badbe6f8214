import Proskrnl.Ke.Ledger

/-!
# The invariant of the dispatcher

`WaitInv` ties the wait lists to the threads that armed their blocks, `Quiet` says that no wait could
be completed, and `KeInv` puts them together with the balance of every object. While the code holds
the lock, two things may be open: an object that was signalled and whose waiters were not all looked
at (`hole`), and a thread whose wait is being completed (`busy`).
-/

namespace Proskrnl.Ke

def Armed (s : KeState) (b : KWaitBlock) : Prop :=
  (s.threads b.thread).state = .waiting ∧
    (b ∈ (s.threads b.thread).waitBlockList ∨
      (s.threads b.thread).timerArmed = true ∧ b = (s.threads b.thread).timerWaitBlock)

def Earlier (a b : KWaitBlock) : Prop :=
  a.arming < b.arming ∨ (a.arming = b.arming ∧ a.waitKey < b.waitKey)

structure WaitForm (t : Tid) (blocks : List KWaitBlock) : Prop where
  intro ::
  form : ∃ waitType arming, ∃ objects : List Waitable,
    blocks = waitBlocks t waitType arming 0 (objects.map .waitable) ∧ objects.length ≤ 64 ∧
      (waitType = .waitAll → objects.Nodup)

structure WaitInv (s : KeState) : Prop where
  listed : ∀ x b, b ∈ (s.objects x).waitList ↔ b.object = x ∧ Armed s b
  ordered : ∀ x, (s.objects x).waitList.Pairwise Earlier
  recent : ∀ x, ∀ b ∈ (s.objects x).waitList, b.arming < s.armings
  idle : ∀ t, (s.threads t).state ≠ .waiting →
    (s.threads t).waitBlockList = [] ∧ (s.threads t).timerArmed = false
  form : ∀ t, WaitForm t (s.threads t).waitBlockList
  timer : ∀ t, (s.threads t).timerArmed = true →
    ∃ arming, (s.threads t).timerWaitBlock = ⟨t, .timeout t, statusTimeout.toNat, .waitAny, arming⟩
  inserted : ∀ x, (s.objects x).inserted = true ↔ x ∈ s.timerList
  timers : s.timerList.Nodup
  timeouts : ∀ t, (s.objects (.timeout t)).inserted = true → (s.threads t).timerArmed = true
  running : ∀ t, s.current = some t ↔ (s.threads t).state = .running

/-- Whether a wait of the thread on the object would complete, the signal state of the hole left out
of account. -/
def Ready (hole : Option ObjId) (s : KeState) (x : ObjId) (t : Tid) : Prop :=
  (0 < (s.objects x).signalState ∧ hole ≠ some x) ∨
    ((s.objects x).type = .mutant ∧ (s.objects x).ownerThread = some t)

def Completable (hole : Option ObjId) (s : KeState) (b : KWaitBlock) : Prop :=
  Ready hole s b.object b.thread ∧ (b.waitType = .waitAll →
    ∀ c ∈ (s.threads b.thread).waitBlockList, Ready hole s c.object b.thread)

def Quiet (hole : Option ObjId) (busy : Option Tid) (s : KeState) : Prop :=
  ∀ b, Armed s b → busy ≠ some b.thread → ¬ Completable hole s b

/-- A wait returns with nothing taken, or with the object at its index, or with all its objects;
and its status says which, and whether an abandoned mutant is among them. -/
def ReturnOk (waitType : WaitType) (objects : List ObjId) (status : NtStatus)
    (taken : List (ObjId × Bool)) : Prop :=
  (taken = [] ∧ status ∈ [statusTimeout, statusAlerted, statusUserApc, statusThreadIsTerminating,
    statusInvalidParameter]) ∨
  match waitType with
  | .waitAny => ∃ i x wasAbandoned, i < 64 ∧ objects[i]? = some x ∧ taken = [(x, wasAbandoned)] ∧
    status = if wasAbandoned then statusAbandonedWait0 + UInt32.ofNat i else UInt32.ofNat i
  | .waitAll => taken.map Prod.fst = objects ∧
    status = if taken.any Prod.snd then statusAbandonedWait0 else statusSuccess

def Event.Ok : Event → Prop
  | .woke arming eligible => ∀ a ∈ eligible, arming ≤ a
  | .returned _ waitType objects status taken => ReturnOk waitType objects status taken
  | _ => True

structure KeInv (s0 : KeState) (hole : Option ObjId) (busy : Option Tid) (s : KeState) : Prop where
  waits : WaitInv s
  types : ∀ x, (s.objects x).type = (s0.objects x).type
  timed : ∀ x, (s.objects x).inserted = true →
    (s0.objects x).type = .notificationTimer ∨ (s0.objects x).type = .synchronizationTimer
  limits : ∀ x, (s0.objects x).type = .semaphore → (s.objects x).limit = (s0.objects x).limit
  balanced : ∀ x, Balanced (s0.objects x).signalState x (s.objects x) s.history
  owners : ∀ x t, x ∈ (s.threads t).mutantList ↔
    (s.objects x).type = .mutant ∧ (s.objects x).ownerThread = some t
  mutants : ∀ t, (s.threads t).mutantList.Nodup
  exited : ∀ t, (s.threads t).state = .terminated → (s.threads t).mutantList = []
  quiet : Quiet hole busy s
  taken : ∀ t, (s.threads t).state = .waiting → busy ≠ some t → (s.threads t).taken = []
  events : ∀ e ∈ s.history, e.Ok

section
variable {t : Tid} {waitType : WaitType} {arming key : Nat} {objects : List ObjId} {b : KWaitBlock}
  {blocks : List KWaitBlock}

theorem mem_waitBlocks (h : b ∈ waitBlocks t waitType arming key objects) :
    b.thread = t ∧ b.waitType = waitType ∧ b.arming = arming ∧ b.object ∈ objects ∧
      key ≤ b.waitKey ∧ objects[b.waitKey - key]? = some b.object := by
  induction objects generalizing key with
  | nil => cases h
  | cons x rest ih =>
    rw [waitBlocks] at h
    rcases List.mem_cons.mp h with rfl | h
    · exact ⟨rfl, rfl, rfl, List.mem_cons_self .., le_rfl, by simp⟩
    · obtain ⟨hthread, htype, harming, hobject, hkey, hget⟩ := ih h
      refine ⟨hthread, htype, harming, List.mem_cons_of_mem _ hobject, by omega, ?_⟩
      rw [show b.waitKey - key = (b.waitKey - (key + 1)) + 1 by omega]
      exact hget

theorem map_object_waitBlocks :
    (waitBlocks t waitType arming key objects).map KWaitBlock.object = objects := by
  induction objects generalizing key with
  | nil => rfl
  | cons x rest ih => rw [waitBlocks, List.map_cons, ih]

theorem pairwise_waitBlocks : (waitBlocks t waitType arming key objects).Pairwise Earlier := by
  induction objects generalizing key with
  | nil => exact .nil
  | cons x rest ih =>
    refine .cons (fun c hc => ?_) ih
    obtain ⟨-, -, harming, -, hkey, -⟩ := mem_waitBlocks hc
    exact .inr ⟨harming.symm, hkey⟩

section
variable (hform : WaitForm t blocks) (hb : b ∈ blocks)
include hform hb

theorem WaitForm.mem :
    b.thread = t ∧ (∃ w, b.object = .waitable w) ∧ b.waitKey < 64 ∧
      (blocks.map KWaitBlock.object)[b.waitKey]? = some b.object := by
  obtain ⟨waitType, arming, objects, rfl, hlen, -⟩ := hform.form
  obtain ⟨hthread, -, -, hobject, -, hget⟩ := mem_waitBlocks hb
  obtain ⟨w, -, hw⟩ := List.mem_map.mp hobject
  rw [map_object_waitBlocks]
  have hlt := (List.getElem?_eq_some_iff.mp hget).1
  rw [List.length_map] at hlt
  exact ⟨hthread, ⟨w, hw.symm⟩, by omega, hget⟩

theorem WaitForm.waitType_eq {c : KWaitBlock}
    (hc : c ∈ blocks) : b.waitType = c.waitType := by
  obtain ⟨waitType, arming, objects, rfl, -, -⟩ := hform.form
  rw [(mem_waitBlocks hb).2.1, (mem_waitBlocks hc).2.1]

theorem WaitForm.nodup
    (hall : b.waitType = .waitAll) : (blocks.map KWaitBlock.object).Nodup := by
  obtain ⟨waitType, arming, objects, rfl, -, hnodup⟩ := hform.form
  rw [map_object_waitBlocks]
  rw [(mem_waitBlocks hb).2.1] at hall
  exact (hnodup hall).map fun _ _ h => ObjId.waitable.inj h

end

theorem WaitForm.nil : WaitForm t [] :=
  ⟨.waitAny, 0, [], rfl, Nat.zero_le _, nofun⟩

end

structure SameWaits (s s' : KeState) : Prop where
  waitList : ∀ x, (s'.objects x).waitList = (s.objects x).waitList
  inserted : ∀ x, (s'.objects x).inserted = (s.objects x).inserted
  state : ∀ t, (s'.threads t).state = (s.threads t).state
  waitBlockList : ∀ t, (s'.threads t).waitBlockList = (s.threads t).waitBlockList
  timerWaitBlock : ∀ t, (s'.threads t).timerWaitBlock = (s.threads t).timerWaitBlock
  timerArmed : ∀ t, (s'.threads t).timerArmed = (s.threads t).timerArmed
  timerList : s'.timerList = s.timerList
  current : s'.current = s.current
  armings : s'.armings = s.armings

structure SameSignals (s s' : KeState) : Prop where
  type : ∀ x, (s'.objects x).type = (s.objects x).type
  signalState : ∀ x, (s'.objects x).signalState = (s.objects x).signalState
  limit : ∀ x, (s'.objects x).limit = (s.objects x).limit
  ownerThread : ∀ x, (s'.objects x).ownerThread = (s.objects x).ownerThread
  abandoned : ∀ x, (s'.objects x).abandoned = (s.objects x).abandoned
  mutantList : ∀ t, (s'.threads t).mutantList = (s.threads t).mutantList

section
variable {s s' s'' : KeState} {b : KWaitBlock} {hole : Option ObjId} {busy : Option Tid}

theorem SameWaits.refl : SameWaits s s := by constructor <;> intros <;> rfl

theorem SameWaits.trans (h : SameWaits s s') (h' : SameWaits s' s'') : SameWaits s s'' where
  waitList x := (h'.waitList x).trans (h.waitList x)
  inserted x := (h'.inserted x).trans (h.inserted x)
  state t := (h'.state t).trans (h.state t)
  waitBlockList t := (h'.waitBlockList t).trans (h.waitBlockList t)
  timerWaitBlock t := (h'.timerWaitBlock t).trans (h.timerWaitBlock t)
  timerArmed t := (h'.timerArmed t).trans (h.timerArmed t)
  timerList := h'.timerList.trans h.timerList
  current := h'.current.trans h.current
  armings := h'.armings.trans h.armings

theorem SameWaits.armed (h : SameWaits s s') : Armed s' b ↔ Armed s b := by
  rw [Armed, Armed, h.state, h.waitBlockList, h.timerArmed, h.timerWaitBlock]

theorem WaitInv.congr (hs : WaitInv s) (h : SameWaits s s') : WaitInv s' where
  listed x b := by rw [h.waitList, h.armed]; exact hs.listed x b
  ordered x := by rw [h.waitList]; exact hs.ordered x
  recent x := by rw [h.waitList, h.armings]; exact hs.recent x
  idle t := by rw [h.state, h.waitBlockList, h.timerArmed]; exact hs.idle t
  form t := by rw [h.waitBlockList]; exact hs.form t
  timer t := by rw [h.timerArmed, h.timerWaitBlock]; exact hs.timer t
  inserted x := by rw [h.inserted, h.timerList]; exact hs.inserted x
  timers := by rw [h.timerList]; exact hs.timers
  timeouts t := by rw [h.inserted, h.timerArmed]; exact hs.timeouts t
  running t := by rw [h.current, h.state]; exact hs.running t

theorem WaitInv.armed (hs : WaitInv s) {x : ObjId} (hb : b ∈ (s.objects x).waitList) : Armed s b :=
  ((hs.listed x b).mp hb).2

theorem Quiet.mono {hole' : Option ObjId} {busy' : Option Tid} (h : Quiet hole busy s)
    (harmed : ∀ b, Armed s' b → busy' ≠ some b.thread → Armed s b ∧ busy ≠ some b.thread ∧
      (s'.threads b.thread).waitBlockList = (s.threads b.thread).waitBlockList)
    (hready : ∀ x t, (s'.threads t).state = .waiting → busy' ≠ some t → Ready hole' s' x t →
      Ready hole s x t) : Quiet hole' busy' s' := by
  intro b hb hbusy hcomplete
  obtain ⟨hb', hbusy', hlist⟩ := harmed b hb hbusy
  refine h b hb' hbusy' ⟨hready _ _ hb.1 hbusy hcomplete.1, fun hall c hc => ?_⟩
  exact hready _ _ hb.1 hbusy (hcomplete.2 hall c (hlist ▸ hc))

theorem Quiet.congr {hole' : Option ObjId} (h : Quiet hole busy s) (hw : SameWaits s s')
    (hready : ∀ x t, (s'.threads t).state = .waiting → busy ≠ some t → Ready hole' s' x t →
      Ready hole s x t) : Quiet hole' busy s' :=
  h.mono (fun _ hb hbusy => ⟨hw.armed.mp hb, hbusy, hw.waitBlockList _⟩) hready

theorem SameSignals.ready (h : SameSignals s s') {x : ObjId} {t : Tid} :
    Ready hole s' x t ↔ Ready hole s x t := by
  rw [Ready, Ready, h.signalState, h.type, h.ownerThread]

end

end Proskrnl.Ke
