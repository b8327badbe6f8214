import Proskrnl.Ke.Dispatcher

/-!
# What the history says of an object

The signal state of an object is what its history makes of its first state: a set that no wait has
used, a balance of counts, a number of acquisitions. `Balanced` says so for each type of object, and
that no completion in the history was without its signal.
-/

namespace Proskrnl.Ke

def Event.object? : Event → Option ObjId
  | .signalled x => some x
  | .cleared x => some x
  | .released x _ => some x
  | .consumed _ x _ => some x
  | .unlocked _ x => some x
  | .abandoned x => some x
  | .deleted x => some x
  | .woke .. => none
  | .returned .. => none

/-- Whether there is a signal that no wait has used. -/
def unused (x : ObjId) (first : Bool) : List Event → Bool
  | [] => first
  | .signalled y :: h => y = x || unused x first h
  | .cleared y :: h => y ≠ x && unused x first h
  | .consumed _ y _ :: h => y ≠ x && unused x first h
  | _ :: h => unused x first h

/-- Each completion of a wait on the object used a signal of its own. -/
def OncePerSignal (x : ObjId) (first : Bool) : List Event → Prop
  | [] => True
  | .consumed _ y _ :: h => (y = x → unused x first h = true) ∧ OncePerSignal x first h
  | _ :: h => OncePerSignal x first h

def releasedCount (x : ObjId) : List Event → Int
  | [] => 0
  | .released y count :: h => if y = x then releasedCount x h + count else releasedCount x h
  | _ :: h => releasedCount x h

def completedWaits (x : ObjId) : List Event → Int
  | [] => 0
  | .consumed _ y _ :: h => if y = x then completedWaits x h + 1 else completedWaits x h
  | _ :: h => completedWaits x h

/-- The acquisitions of a mutant by a thread that were not released. -/
def held (x : ObjId) (t : Tid) : List Event → Int
  | [] => 0
  | .consumed u y _ :: h => if y = x ∧ u = t then held x t h + 1 else held x t h
  | .unlocked u y :: h => if y = x ∧ u = t then held x t h - 1 else held x t h
  | .abandoned y :: h => if y = x then 0 else held x t h
  | .deleted y :: h => if y = x then 0 else held x t h
  | _ :: h => held x t h

/-- Whether a mutant was abandoned and not acquired since. -/
def unreported (x : ObjId) : List Event → Bool
  | [] => false
  | .abandoned y :: h => y = x || unreported x h
  | .consumed _ y _ :: h => y ≠ x && unreported x h
  | .deleted y :: h => y ≠ x && unreported x h
  | _ :: h => unreported x h

/-- An acquisition reports abandonment when it is the first one behind it, and only then. -/
def ReportedOnce (x : ObjId) : List Event → Prop
  | [] => True
  | .consumed _ y wasAbandoned :: h =>
    (y = x → wasAbandoned = unreported x h) ∧ ReportedOnce x h
  | _ :: h => ReportedOnce x h

def Balanced (first : Int) (x : ObjId) (o : KObject) (h : List Event) : Prop :=
  match o.type with
  | .synchronizationEvent | .synchronizationTimer =>
    o.signalState = (if unused x (decide (0 < first)) h then 1 else 0) ∧
      OncePerSignal x (decide (0 < first)) h
  | .semaphore =>
    0 ≤ o.signalState ∧ o.signalState ≤ o.limit ∧ o.limit ≤ longMax ∧
      first + releasedCount x h = completedWaits x h + o.signalState
  | .mutant =>
    (∀ t, o.ownerThread = some t →
      o.signalState = 1 - held x t h ∧ o.signalState ≤ 0 ∧ o.abandoned = false) ∧
    (o.ownerThread = none → o.signalState = 1) ∧
    (∀ t, o.ownerThread ≠ some t → held x t h = 0) ∧
    o.abandoned = unreported x h ∧ ReportedOnce x h
  | _ => o.signalState = 0 ∨ o.signalState = 1

section
variable {first : Int} {b : Bool} {x : ObjId} {t : Tid} {o : KObject} {e : Event} {h : List Event}

section
variable (he : e.object? ≠ some x)
include he

theorem unused_skip : unused x b (e :: h) = unused x b h := by
  cases e <;> simp_all [unused, Event.object?]

theorem oncePerSignal_skip :
    OncePerSignal x b (e :: h) ↔ OncePerSignal x b h := by
  cases e <;> simp_all [OncePerSignal, Event.object?]

theorem releasedCount_skip :
    releasedCount x (e :: h) = releasedCount x h := by
  cases e <;> simp_all [releasedCount, Event.object?]

theorem completedWaits_skip :
    completedWaits x (e :: h) = completedWaits x h := by
  cases e <;> simp_all [completedWaits, Event.object?]

theorem held_skip : held x t (e :: h) = held x t h := by
  cases e <;> simp_all [held, Event.object?]

theorem unreported_skip : unreported x (e :: h) = unreported x h := by
  cases e <;> simp_all [unreported, Event.object?]

theorem reportedOnce_skip :
    ReportedOnce x (e :: h) ↔ ReportedOnce x h := by
  cases e <;> simp_all [ReportedOnce, Event.object?]

end

section
variable (hb : Balanced first x o h)
include hb

theorem Balanced.skip (he : e.object? ≠ some x) :
    Balanced first x o (e :: h) := by
  unfold Balanced at hb ⊢
  simp only [unused_skip he, oncePerSignal_skip he, releasedCount_skip he, completedWaits_skip he,
    held_skip he, unreported_skip he, reportedOnce_skip he]
  exact hb

theorem Balanced.congr {o' : KObject} (htype : o'.type = o.type)
    (hsignal : o'.signalState = o.signalState) (hlimit : o'.limit = o.limit)
    (howner : o'.ownerThread = o.ownerThread) (habandoned : o'.abandoned = o.abandoned) :
    Balanced first x o' h := by
  unfold Balanced at hb ⊢
  rw [htype, hsignal, hlimit, howner, habandoned]
  exact hb

theorem Balanced.owned (htype : o.type = .mutant)
    (howner : o.ownerThread = some t) :
    o.signalState = 1 - held x t h ∧ o.signalState ≤ 0 ∧ o.abandoned = false := by
  unfold Balanced at hb
  rw [htype] at hb
  exact hb.1 t howner

theorem Balanced.unowned (htype : o.type = .mutant)
    (howner : o.ownerThread = none) : o.signalState = 1 := by
  unfold Balanced at hb
  rw [htype] at hb
  exact hb.2.1 howner

theorem Balanced.owner_eq_none (htype : o.type = .mutant)
    (hsignal : 0 < o.signalState) : o.ownerThread = none := by
  cases howner : o.ownerThread with
  | none => rfl
  | some t =>
    have := (hb.owned htype howner).2.1
    omega

end

theorem signalState_pos (hsat : kiIsSatisfiable o t = true) (htype : o.type ≠ .mutant) :
    0 < o.signalState := by
  simpa [kiIsSatisfiable, htype] using hsat

theorem Balanced.owner_of_satisfiable (hb : Balanced first x o h) (htype : o.type = .mutant)
    (hsat : kiIsSatisfiable o t = true) : o.ownerThread = none ∨ o.ownerThread = some t := by
  simp only [kiIsSatisfiable, Bool.or_eq_true, decide_eq_true_eq, Bool.and_eq_true,
    beq_iff_eq] at hsat
  rcases hsat with hsat | hsat
  · exact .inl (hb.owner_eq_none htype hsat)
  · exact .inr hsat.2

theorem Balanced.satisfied_mutant {o' : KObject} {wasAbandoned : Bool}
    (hb : Balanced first x o h) (htype : o.type = .mutant) (hsat : kiIsSatisfiable o t = true)
    (ho : satisfied o t = .ok (wasAbandoned, o')) :
    Balanced first x o' (.consumed t x wasAbandoned :: h) := by
  have howner := hb.owner_of_satisfiable htype hsat
  rw [satisfied, htype] at ho
  dsimp only at ho
  split at ho
  · cases ho
  unfold Balanced at hb
  rw [htype] at hb
  obtain ⟨hheld, hfree, hothers, habandoned, hreported⟩ := hb
  split at ho
  · -- a recursive acquisition: the owner's count goes up by one
    rename_i hown
    cases ho
    obtain ⟨hstate, hle, hclean⟩ := hheld t hown
    unfold Balanced
    simp only [held, unreported, ReportedOnce, true_and, forall_true_left]
    refine ⟨fun u hu => ?_, fun hnone => ?_, fun u hu => ?_, ?_, habandoned, hreported⟩
    · rw [hown] at hu
      cases hu
      rw [if_pos rfl]
      exact ⟨by omega, by omega, hclean⟩
    · rw [hown] at hnone; cases hnone
    · rw [if_neg fun heq : t = u => hu (heq ▸ hown)]
      exact hothers u hu
    · simpa using hclean
  · -- a free mutant: the thread becomes its owner
    rename_i hnot
    have hnone : o.ownerThread = none := howner.resolve_right hnot
    cases ho
    unfold Balanced
    simp only [held, unreported, ReportedOnce, true_and, forall_true_left]
    have hzero (u : Tid) : held x u h = 0 := hothers u (by rw [hnone]; simp)
    refine ⟨fun u hu => ?_, fun hnone => ?_, fun u hu => ?_, ?_, habandoned, hreported⟩
    · cases hu
      rw [if_pos rfl, hzero, hfree hnone]
      exact ⟨rfl, le_rfl, trivial⟩
    · cases hnone
    · rw [if_neg fun heq : t = u => hu (heq ▸ rfl)]
      exact hzero u
    · simp

theorem Balanced.satisfied {o' : KObject} {wasAbandoned : Bool} (hb : Balanced first x o h)
    (hsat : kiIsSatisfiable o t = true) (ho : Ke.satisfied o t = .ok (wasAbandoned, o')) :
    Balanced first x o' (.consumed t x wasAbandoned :: h) := by
  by_cases hmutant : o.type = .mutant
  · exact hb.satisfied_mutant hmutant hsat ho
  have hpos := signalState_pos hsat hmutant
  cases htype : o.type with
  | mutant => exact absurd htype hmutant
  | synchronizationEvent | synchronizationTimer =>
    rw [Ke.satisfied, htype] at ho
    cases ho
    unfold Balanced at hb ⊢
    simp only [htype] at hb ⊢
    have hunused : unused x (decide (0 < first)) h = true := by
      by_contra hnot
      rw [if_neg hnot] at hb
      omega
    refine ⟨by simp [unused], ?_⟩
    exact ⟨fun _ => hunused, hb.2⟩
  | semaphore =>
    rw [Ke.satisfied, htype] at ho
    dsimp only at ho
    rw [if_pos hpos] at ho
    cases ho
    unfold Balanced at hb ⊢
    simp only [htype] at hb ⊢
    simp only [releasedCount, completedWaits, if_true]
    omega
  | notificationEvent | notificationTimer | thread | process =>
    rw [Ke.satisfied, htype] at ho
    cases ho
    unfold Balanced at hb ⊢
    simp only [htype] at hb ⊢
    exact hb

theorem satisfied_eq_ok (hsat : kiIsSatisfiable o t = true) :
    satisfied o t = .error .overflow ∨ ∃ r o', satisfied o t = .ok (r, o') := by
  cases htype : o.type with
  | mutant =>
    rw [satisfied, htype]
    dsimp only
    split
    · exact .inl rfl
    · split <;> exact .inr ⟨_, _, rfl⟩
  | semaphore =>
    have hpos := signalState_pos hsat (by rw [htype]; decide)
    rw [satisfied, htype]
    dsimp only
    rw [if_pos hpos]
    exact .inr ⟨_, _, rfl⟩
  | synchronizationEvent | synchronizationTimer | notificationEvent | notificationTimer | thread
    | process =>
    rw [satisfied, htype]
    exact .inr ⟨_, _, rfl⟩

section
variable (hb : Balanced first x o h)
include hb

theorem Balanced.signalled (hsem : o.type ≠ .semaphore)
    (hmut : o.type ≠ .mutant) :
    Balanced first x { o with signalState := 1 } (.signalled x :: h) := by
  unfold Balanced at hb ⊢
  cases htype : o.type with
  | mutant => exact absurd htype hmut
  | semaphore => exact absurd htype hsem
  | synchronizationEvent | synchronizationTimer =>
    simp only [htype] at hb ⊢
    exact ⟨by simp [unused], hb.2⟩
  | notificationEvent | notificationTimer | thread | process => exact .inr rfl

theorem Balanced.cleared (hsem : o.type ≠ .semaphore)
    (hmut : o.type ≠ .mutant) :
    Balanced first x { o with signalState := 0 } (.cleared x :: h) := by
  unfold Balanced at hb ⊢
  cases htype : o.type with
  | mutant => exact absurd htype hmut
  | semaphore => exact absurd htype hsem
  | synchronizationEvent | synchronizationTimer =>
    simp only [htype] at hb ⊢
    exact ⟨by simp [unused], hb.2⟩
  | notificationEvent | notificationTimer | thread | process => exact .inl rfl

theorem Balanced.released {count : Int} (htype : o.type = .semaphore)
    (hcount : 1 ≤ count) (hlimit : o.signalState + count ≤ o.limit) :
    Balanced first x { o with signalState := o.signalState + count } (.released x count :: h) := by
  unfold Balanced at hb ⊢
  simp only [htype] at hb ⊢
  simp only [releasedCount, completedWaits, if_true]
  omega

theorem Balanced.abandoned (htype : o.type = .mutant) :
    Balanced first x { o with signalState := 1, abandoned := true, ownerThread := none }
      (.abandoned x :: h) := by
  unfold Balanced at hb ⊢
  simp only [htype] at hb ⊢
  refine ⟨nofun, fun _ => trivial, fun t _ => ?_, ?_, hb.2.2.2.2⟩
  · simp [held]
  · simp [unreported]

theorem Balanced.unlocked (htype : o.type = .mutant)
    (howner : o.ownerThread = some t) (hlast : o.signalState = 0) :
    Balanced first x { o with signalState := 1, ownerThread := none } (.unlocked t x :: h) := by
  obtain ⟨hstate, -, hclean⟩ := hb.owned htype howner
  unfold Balanced at hb ⊢
  simp only [htype] at hb ⊢
  obtain ⟨-, -, hothers, habandoned, hreported⟩ := hb
  refine ⟨nofun, fun _ => trivial, fun u _ => ?_, habandoned, hreported⟩
  by_cases hu : u = t
  · subst hu
    simp only [held, true_and, if_true]
    omega
  · simp only [held, true_and, if_neg (Ne.symm hu)]
    exact hothers u fun h => hu (Option.some.inj (h.symm.trans howner))

theorem Balanced.unlockedOnce (htype : o.type = .mutant)
    (howner : o.ownerThread = some t) (hmore : o.signalState < 0) :
    Balanced first x { o with signalState := o.signalState + 1 } (.unlocked t x :: h) := by
  obtain ⟨hstate, -, hclean⟩ := hb.owned htype howner
  unfold Balanced at hb ⊢
  simp only [htype] at hb ⊢
  obtain ⟨-, -, hothers, habandoned, hreported⟩ := hb
  refine ⟨fun u hu => ?_, fun hnone => ?_, fun u hu => ?_, habandoned, hreported⟩
  · rw [howner] at hu
    cases hu
    simp only [held, true_and, if_true]
    exact ⟨by omega, by omega, hclean⟩
  · rw [howner] at hnone; cases hnone
  · simp only [held, true_and]
    rw [if_neg fun heq : t = u => hu (heq ▸ howner)]
    exact hothers u hu

theorem Balanced.deleted (htype : o.type = .mutant) :
    Balanced first x keInitializeMutex (.deleted x :: h) := by
  unfold Balanced at hb ⊢
  simp only [htype, keInitializeMutex] at hb ⊢
  refine ⟨nofun, fun _ => trivial, fun t _ => ?_, ?_, hb.2.2.2.2⟩
  · simp [held]
  · simp [unreported]

end

theorem Fresh.balanced (ho : Fresh o) : Balanced o.signalState x o [] := by
  cases ho with
  | event notification state =>
    cases notification <;> cases state <;>
      simp [Balanced, keInitializeEvent, unused, OncePerSignal]
  | @semaphore count limit _ hlimit ho =>
    rw [keInitializeSemaphore] at ho
    split at ho
    · cases ho
    · cases ho
      simp only [Balanced, releasedCount, completedWaits]
      omega
  | mutex => simp [Balanced, keInitializeMutex, held, unreported, ReportedOnce]
  | timer notification =>
    cases notification <;> simp [Balanced, keInitializeTimerEx, unused, OncePerSignal]
  | thread => simp [Balanced]
  | process => simp [Balanced]

end

end Proskrnl.Ke
