import Mathlib

/-!
# The interrupt clock

The tick, the interpolation between ticks and the shared page of `kernel/ke/timer.c`. A time-stamp
reading is an argument of the function that takes it. `KeSetSystemTime` publishes after it has
released the lock, so its stores to the page are steps of their own, and interrupts may come between
them; no thread runs until it is through.

Three fields record what the code does and are read by no code: the last reading, the answers of
`KeQueryInterruptTime`, and the time that was set last.
-/

namespace Proskrnl.Ke
open Option

def ki100nsPerTick : UInt64 := 10000
def kiMaxFractionTicks : UInt64 := 40
def kiMaxCatchupTicks : UInt64 := 1000

def kiTickFraction (rate now tickTsc : UInt64) : UInt64 :=
  if rate = 0 then 0
  else
    let delta := now - tickTsc
    if delta ≥ rate * kiMaxFractionTicks then kiMaxFractionTicks * ki100nsPerTick - 1
    else delta * ki100nsPerTick / rate

def kiTicksElapsed (elapsed rate : UInt64) : UInt64 :=
  if rate = 0 then 1
  else
    let ticks := elapsed / rate
    if ticks = 0 then 1
    else if ticks > kiMaxCatchupTicks then kiMaxCatchupTicks
    else ticks

structure KSystemTime where
  high2Time : UInt32
  lowPart : UInt32
  high1Time : UInt32
  deriving DecidableEq

def highPart (value : UInt64) : UInt32 := (value >>> 32).toUInt32

/-- `KiWriteKSystemTime`, with nothing in between. -/
def KSystemTime.of (value : UInt64) : KSystemTime :=
  ⟨highPart value, value.toUInt32, highPart value⟩

/-- What a reader takes from a time: it spins until the two high parts agree. -/
def KSystemTime.read (time : KSystemTime) : Option UInt64 :=
  if time.high1Time = time.high2Time then
    some (time.high1Time.toUInt64 * 4294967296 + time.lowPart.toUInt64)
  else none

inductive SharedField
  | interruptTime
  | systemTime
  | tickCount
  deriving DecidableEq

/-- How far `KiUpdateUserSharedDataTime` has got with a field: it reads the tick count first, and for
each field evaluates the value and stores it in three parts. -/
inductive PublishPhase
  | tickMs
  | evaluate
  | high2
  | low
  | high1
  deriving DecidableEq

/-- The rest of a publication of `KeSetSystemTime`, with its local values. -/
structure Publication where
  field : SharedField
  phase : PublishPhase
  value : UInt64
  tickMs : UInt64

structure ClockState where
  /-- `KeTickCount`. -/
  tickCount : UInt64
  interruptTime : UInt64
  tickTsc : UInt64
  systemTimeBase : UInt64
  catchUpTicks : UInt64
  idleTime : UInt64
  totalKernelTime : UInt64
  totalUserTime : UInt64
  /-- `KiUserSharedData`, once there is a page. -/
  page : Option (SharedField → KSystemTime)
  publication : Option Publication
  lastTsc : UInt64
  queries : List UInt64
  setTo : Option UInt64

inductive Charge
  | idle
  | user
  | kernel

namespace ClockState

def current (s : ClockState) : SharedField → UInt64
  | .interruptTime => s.interruptTime
  | .systemTime => s.systemTimeBase + s.interruptTime
  | .tickCount => s.interruptTime / 10000

/-- `KiUpdateUserSharedDataTime`, with nothing in between. -/
def publish (s : ClockState) : ClockState :=
  { s with page := s.page.map fun _ f => .of (s.current f) }

def keQueryInterruptTime (rate now : UInt64) (s : ClockState) : UInt64 :=
  s.interruptTime + kiTickFraction rate now s.tickTsc

def keQuerySystemTime (rate now : UInt64) (s : ClockState) : UInt64 :=
  s.systemTimeBase + s.keQueryInterruptTime rate now

def charge (c : Charge) (advance : UInt64) (s : ClockState) : ClockState :=
  match c with
  | .idle => { s with idleTime := s.idleTime + advance }
  | .user => { s with totalUserTime := s.totalUserTime + advance }
  | .kernel => { s with totalKernelTime := s.totalKernelTime + advance }

/-- `KiUpdateClock` up to the expiry of timers; `none` when its assertion fails. -/
def kiUpdateClock (rate now : UInt64) (c : Charge) (s : ClockState) : Option ClockState :=
  let elapsed := now - s.tickTsc
  let ticks := kiTicksElapsed elapsed rate
  let advance := ticks * ki100nsPerTick
  let tickTsc := if rate ≠ 0 ∧ ticks * rate ≤ elapsed then s.tickTsc + ticks * rate else now
  let s := { s with
    tickCount := s.tickCount + ticks
    interruptTime := s.interruptTime + advance
    catchUpTicks := s.catchUpTicks + (ticks - 1)
    tickTsc
    lastTsc := now }
  let s := s.charge c advance
  if s.idleTime + s.totalKernelTime + s.totalUserTime = s.interruptTime then some s.publish
  else none

/-- `KeSetSystemTime` up to the release of the lock; without a page nothing is published. -/
def keSetSystemTime (rate newTime now : UInt64) (s : ClockState) : ClockState :=
  { s with
    systemTimeBase := newTime - s.keQueryInterruptTime rate now
    publication := if s.page.isSome then some ⟨.interruptTime, .tickMs, 0, 0⟩ else none
    lastTsc := now
    setTo := some newTime }

/-- A store of `KiWriteKSystemTime`. -/
def store (f : SharedField) (change : KSystemTime → KSystemTime) (s : ClockState) : ClockState :=
  { s with page := s.page.map fun p => Function.update p f (change (p f)) }

/-- One step of the publication of `KeSetSystemTime`. -/
def publishStep (s : ClockState) : ClockState :=
  match s.publication with
  | none => s
  | some p =>
    match p.phase with
    | .tickMs =>
      { s with publication := some { p with phase := .evaluate, tickMs := s.interruptTime / 10000 } }
    | .evaluate =>
      let value := if p.field = .tickCount then p.tickMs else s.current p.field
      { s with publication := some { p with phase := .high2, value } }
    | .high2 =>
      { s.store p.field (fun t => { t with high2Time := highPart p.value }) with
        publication := some { p with phase := .low } }
    | .low =>
      { s.store p.field (fun t => { t with lowPart := p.value.toUInt32 }) with
        publication := some { p with phase := .high1 } }
    | .high1 =>
      { s.store p.field (fun t => { t with high1Time := highPart p.value }) with
        publication :=
          match p.field with
          | .interruptTime => some { p with field := .systemTime, phase := .evaluate }
          | .systemTime => some { p with field := .tickCount, phase := .evaluate }
          | .tickCount => none }

end ClockState

/-- A step: an interrupt, a call of a thread, or a step of the publication of a call. -/
inductive ClockOp
  | interrupt (now : UInt64) (c : Charge)
  | query (now : UInt64)
  | setSystemTime (newTime now : UInt64)
  | seed
  | publish

/-- The reading of the counter that a step takes. -/
def ClockOp.now (s : ClockState) : ClockOp → UInt64
  | .interrupt now _ => now
  | .query now => now
  | .setSystemTime _ now => now
  | .seed => s.lastTsc
  | .publish => s.lastTsc

/-- One step; while a call publishes, no thread runs. `seed` is `KiSeedUserSharedDataTime` with the
page that was just built. -/
def ClockOp.step (rate : UInt64) (op : ClockOp) (s : ClockState) : Option ClockState :=
  match op, s.publication with
  | .interrupt now c, _ => s.kiUpdateClock rate now c
  | .query now, none =>
    some { s with lastTsc := now, queries := s.keQueryInterruptTime rate now :: s.queries }
  | .setSystemTime newTime now, none => some (s.keSetSystemTime rate newTime now)
  | .seed, none => some { s with page := some fun f => .of (s.current f) }
  | .publish, _ => some s.publishStep
  | _, some _ => some s

/-- The clock as `KiInitializeClock` leaves it, its base from the four digits of a year. -/
structure ClockInitial (s : ClockState) : Prop where
  tickCount : s.tickCount = 0
  interruptTime : s.interruptTime = 0
  tickTsc : s.tickTsc = s.lastTsc
  base : s.systemTimeBase.toNat < 2 ^ 62
  idle : s.idleTime = 0
  kernel : s.totalKernelTime = 0
  user : s.totalUserTime = 0
  page : s.page = none
  publication : s.publication = none
  queries : s.queries = []
  setTo : s.setTo = none

inductive ClockRun (rate : UInt64) (allowed : ClockOp → ClockState → Prop) (s₀ : ClockState) :
    ClockState → Prop
  | refl : ClockRun rate allowed s₀ s₀
  | step {s s' : ClockState} (op : ClockOp) : ClockRun rate allowed s₀ s → s.lastTsc ≤ op.now s →
    allowed op s → op.step rate s = some s' → ClockRun rate allowed s₀ s'

/-- A `LONGLONG` with these bits. -/
def signed (v : UInt64) : Int := if v.toNat < 2 ^ 63 then v.toNat else v.toNat - 2 ^ 64

def SharedField.key : SharedField → UInt64 → Int
  | .systemTime, v => signed v
  | .interruptTime, v => v.toNat
  | .tickCount, v => v.toNat

def ClockState.answer (rate now : UInt64) (s : ClockState) : SharedField → UInt64
  | .interruptTime => s.keQueryInterruptTime rate now
  | .systemTime => s.keQuerySystemTime rate now
  | .tickCount => s.keQueryInterruptTime rate now / 10000

structure ClockKept (rate : UInt64) (s : ClockState) : Prop where
  /-- The answers of `KeQueryInterruptTime`, the last first. -/
  monotone : s.queries.Pairwise (· ≥ ·)
  next : ∀ now, s.lastTsc ≤ now → ∀ q ∈ s.queries, q ≤ s.keQueryInterruptTime rate now
  base : s.tickTsc ≤ s.lastTsc
  accounted : s.idleTime.toNat + s.totalKernelTime.toNat + s.totalUserTime.toNat =
    s.interruptTime.toNat ∧ s.interruptTime.toNat = s.tickCount.toNat * 10000
  /-- No time that the page shows is ahead of a query. -/
  page : s.publication = none → ∀ p, s.page = some p → ∀ f v, (p f).read = some v →
    ∀ now, s.lastTsc ≤ now → f.key v ≤ f.key (s.answer rate now f)
  /-- A query of the system time does not fall below the time that was set. -/
  set : ∀ t, s.setTo = some t → ∀ now, s.lastTsc ≤ now →
    signed t ≤ signed (s.keQuerySystemTime rate now)
  /-- The assertion of the next tick holds. -/
  ticks : ∀ now c, ∃ s', s.kiUpdateClock rate now c = some s'

/-- The rate is such that the product in `KiTickFraction` fits 64 bits, whatever was not clamped. -/
def RateFits (rate : UInt64) : Prop := 0 < rate.toNat ∧ 400000 * rate.toNat < 2 ^ 64 + 10000

/-- What the clock shows stays in its range: the interrupt time in 64 bits, the system time in the
positive `LONGLONG`s. -/
def ClockOp.InRange (rate : UInt64) (op : ClockOp) (s : ClockState) : Prop :=
  match op with
  | .interrupt now _ =>
    let advance := (kiTicksElapsed (now - s.tickTsc) rate).toNat * 10000
    s.interruptTime.toNat + advance + 399999 < 2 ^ 64 ∧
      signed (s.systemTimeBase + s.interruptTime) + advance + 399999 < 2 ^ 63
  | .setSystemTime newTime _ =>
    -2 ^ 63 + 399999 ≤ signed newTime ∧ signed newTime + 399999 < 2 ^ 63
  | _ => True

/-! ## The interpolation -/

def fraction (rate delta : Nat) : Nat :=
  if 40 * rate ≤ delta then 399999 else delta * 10000 / rate

theorem fraction_le {rate : Nat} (delta : Nat) (hrate : 0 < rate) :
    fraction rate delta ≤ 399999 := by
  unfold fraction
  split
  · exact le_rfl
  · rename_i hlt
    have : delta * 10000 / rate < 400000 := by
      rw [Nat.div_lt_iff_lt_mul hrate]
      omega
    omega

variable {d : Nat}

theorem fraction_mono {rate d' : Nat} (hrate : 0 < rate) (h : d ≤ d') :
    fraction rate d ≤ fraction rate d' := by
  by_cases hd' : 40 * rate ≤ d'
  · rw [fraction, fraction, if_pos hd', ← fraction]
    exact fraction_le d hrate
  · rw [fraction, fraction, if_neg hd', if_neg (by omega)]
    exact Nat.div_le_div_right (Nat.mul_le_mul_right _ h)

/-- Whole ticks are folded into the base, the rest stays in the fraction: nothing is lost. -/
theorem fraction_rebase {rate k : Nat} (hrate : 0 < rate) (hk : k = d / rate ∨ 40 ≤ k)
    (hd : k * rate ≤ d) : fraction rate d ≤ k * 10000 + fraction rate (d - k * rate) := by
  by_cases hlarge : 40 * rate ≤ d
  · rw [fraction, if_pos hlarge]
    have : 40 ≤ k := by
      rcases hk with rfl | hk
      · exact (Nat.le_div_iff_mul_le hrate).mpr hlarge
      · exact hk
    omega
  · have hk : k = d / rate := by
      rcases hk with hk | hk
      · exact hk
      · exact absurd ((Nat.mul_le_mul_right rate hk).trans hd) hlarge
    have hmod : d - k * rate < rate := by
      rw [hk]
      have := Nat.div_add_mod' d rate
      have := Nat.mod_lt d hrate
      omega
    rw [fraction, fraction, if_neg hlarge, if_neg (by omega)]
    have hsplit : d * 10000 = (d - k * rate) * 10000 + rate * (k * 10000) := by
      have : rate * (k * 10000) = k * rate * 10000 := by ring
      omega
    rw [hsplit, Nat.add_mul_div_left _ _ hrate]
    omega

theorem fraction_early {rate : Nat} (hd : d < rate) : fraction rate d ≤ 10000 := by
  rw [fraction, if_neg (by omega)]
  exact Nat.div_le_of_le_mul (Nat.mul_le_mul_right _ hd.le)

section
variable {rate now now' : UInt64} {s s' s₀ : ClockState}

theorem RateFits.lt (h : RateFits rate) : 40 * rate.toNat < 2 ^ 64 := by
  have := h.2
  omega

theorem toNat_kiTickFraction {tickTsc : UInt64} (h : RateFits rate) (hle : tickTsc ≤ now) :
    (kiTickFraction rate now tickTsc).toNat =
      fraction rate.toNat (now.toNat - tickTsc.toNat) := by
  have hrate : rate ≠ 0 := by
    rintro rfl
    exact absurd h.1 (by decide)
  have hdelta : (now - tickTsc).toNat = now.toNat - tickTsc.toNat :=
    UInt64.toNat_sub_of_le _ _ hle
  have hmul : (rate * kiMaxFractionTicks).toNat = 40 * rate.toNat := by
    rw [UInt64.toNat_mul, show kiMaxFractionTicks.toNat = 40 from rfl, Nat.mul_comm]
    exact Nat.mod_eq_of_lt h.lt
  simp only [kiTickFraction, if_neg hrate, fraction, ge_iff_le, UInt64.le_iff_toNat_le, hmul, hdelta]
  split
  · rfl
  · rename_i hlt
    have hproduct : (now.toNat - tickTsc.toNat) * 10000 < 2 ^ 64 := by
      have := h.2
      omega
    rw [UInt64.toNat_div, UInt64.toNat_mul, hdelta, show ki100nsPerTick.toNat = 10000 from rfl,
      Nat.mod_eq_of_lt hproduct]

theorem toNat_kiTicksElapsed (elapsed : UInt64) (h : 0 < rate.toNat) :
    (kiTicksElapsed elapsed rate).toNat =
      if elapsed.toNat / rate.toNat = 0 then 1 else min (elapsed.toNat / rate.toNat) 1000 := by
  have hrate : rate ≠ 0 := by
    rintro rfl
    exact absurd h (by decide)
  have hzero : elapsed / rate = 0 ↔ elapsed.toNat / rate.toNat = 0 := by
    rw [← UInt64.toNat_inj, UInt64.toNat_div]
    rfl
  simp only [kiTicksElapsed, if_neg hrate, hzero]
  split
  · rfl
  · simp only [gt_iff_lt, UInt64.lt_iff_toNat_lt, UInt64.toNat_div]
    rw [show kiMaxCatchupTicks.toNat = 1000 from rfl]
    split
    · rename_i hgt
      rw [min_eq_right hgt.le]
      rfl
    · rename_i hle
      rw [min_eq_left (not_lt.mp hle), UInt64.toNat_div]

/-! ## The invariant -/

def PastValue (s : ClockState) (f : SharedField) (v : UInt64) : Prop :=
  f.key v ≤ f.key (s.current f)

/-- What is known of a field while `KeSetSystemTime` publishes it: the high part that was stored
first is that of a past value, and so is the low part. -/
def PhaseInv (s : ClockState) (p : Publication) (t : KSystemTime) : Prop :=
  match p.phase with
  | .tickMs => True
  | .evaluate => True
  | .high2 => PastValue s p.field p.value
  | .low => PastValue s p.field p.value ∧ ∃ v, PastValue s p.field v ∧ t.high2Time = highPart v
  | .high1 => PastValue s p.field p.value ∧ ∃ v, PastValue s p.field v ∧ t.high2Time = highPart v ∧
      (t.lowPart = p.value.toUInt32 ∨ t.lowPart = v.toUInt32)

def SharedField.done : SharedField → List SharedField
  | .interruptTime => []
  | .systemTime => [.interruptTime]
  | .tickCount => [.interruptTime, .systemTime]

def FieldInv (s : ClockState) (f : SharedField) (t : KSystemTime) : Prop :=
  ∀ v, t.read = some v → PastValue s f v

structure PageInv (s : ClockState) : Prop where
  idle : s.publication = none → ∀ p, s.page = some p → ∀ f, FieldInv s f (p f)
  done : ∀ pub, s.publication = some pub → ∀ p, s.page = some p → ∀ f ∈ pub.field.done,
    FieldInv s f (p f)
  phase : ∀ pub, s.publication = some pub → ∀ p, s.page = some p → PhaseInv s pub (p pub.field)
  tickMs : ∀ pub, s.publication = some pub → pub.phase ≠ .tickMs →
    PastValue s .tickCount pub.tickMs

structure ClockInv (rate : UInt64) (s : ClockState) : Prop where
  base : s.tickTsc ≤ s.lastTsc
  totals : s.idleTime.toNat + s.totalKernelTime.toNat + s.totalUserTime.toNat =
    s.interruptTime.toNat
  ticks : s.interruptTime.toNat = s.tickCount.toNat * 10000
  room : s.interruptTime.toNat + 399999 < 2 ^ 64
  systemRoom : signed (s.systemTimeBase + s.interruptTime) + 399999 < 2 ^ 63
  monotone : s.queries.Pairwise (· ≥ ·)
  asked : ∀ q ∈ s.queries, q.toNat ≤
    s.interruptTime.toNat + fraction rate.toNat (s.lastTsc.toNat - s.tickTsc.toNat)
  set : ∀ t, s.setTo = some t → signed t ≤ signed (s.systemTimeBase + s.interruptTime) +
    fraction rate.toNat (s.lastTsc.toNat - s.tickTsc.toNat)
  page : PageInv s

variable {a b : UInt64} {f : SharedField} {pub : Publication}

theorem signed_add (h : signed a + b.toNat < 2 ^ 63) :
    signed (a + b) = signed a + b.toNat := by
  have ha := a.toNat_lt
  have hb := b.toNat_lt
  have hab : (a + b).toNat = (a.toNat + b.toNat) % 2 ^ 64 := UInt64.toNat_add a b
  unfold signed at *
  split at h <;> split <;> omega

theorem toNat_keQueryInterruptTime (h : RateFits rate) (hs : ClockInv rate s)
    (hnow : s.lastTsc ≤ now) : (s.keQueryInterruptTime rate now).toNat =
      s.interruptTime.toNat + fraction rate.toNat (now.toNat - s.tickTsc.toNat) := by
  rw [ClockState.keQueryInterruptTime, UInt64.toNat_add,
    toNat_kiTickFraction h (UInt64.le_trans hs.base hnow)]
  have := hs.room
  have := fraction_le (now.toNat - s.tickTsc.toNat) h.1
  exact Nat.mod_eq_of_lt (by omega)

theorem signed_keQuerySystemTime (h : RateFits rate) (hs : ClockInv rate s)
    (hnow : s.lastTsc ≤ now) : signed (s.keQuerySystemTime rate now) =
      signed (s.systemTimeBase + s.interruptTime) +
        fraction rate.toNat (now.toNat - s.tickTsc.toNat) := by
  have hfraction := toNat_kiTickFraction h (UInt64.le_trans hs.base hnow)
  have := hs.systemRoom
  have := fraction_le (now.toNat - s.tickTsc.toNat) h.1
  rw [ClockState.keQuerySystemTime, ClockState.keQueryInterruptTime, ← UInt64.add_assoc,
    signed_add (by rw [hfraction]; omega), hfraction]

theorem fraction_later (h : RateFits rate) (hle : now ≤ now') :
    fraction rate.toNat (now.toNat - s.tickTsc.toNat) ≤
      fraction rate.toNat (now'.toNat - s.tickTsc.toNat) :=
  fraction_mono h.1 (Nat.sub_le_sub_right hle _)

theorem ClockInv.kept (h : RateFits rate) (hs : ClockInv rate s)
    (hticks : ∀ now c, ∃ s', s.kiUpdateClock rate now c = some s') : ClockKept rate s where
  monotone := hs.monotone
  next now hnow q hq := by
    rw [UInt64.le_iff_toNat_le, toNat_keQueryInterruptTime h hs hnow]
    exact (hs.asked q hq).trans (Nat.add_le_add_left (fraction_later h hnow) _)
  base := hs.base
  accounted := ⟨hs.totals, hs.ticks⟩
  page hidle p hp f v hv now hnow := by
    have hpast : f.key v ≤ f.key (s.current f) := hs.page.idle hidle p hp f v hv
    refine hpast.trans ?_
    cases f with
    | interruptTime =>
      have := toNat_keQueryInterruptTime h hs hnow
      simp only [SharedField.key, ClockState.current, ClockState.answer]
      omega
    | systemTime =>
      have := signed_keQuerySystemTime h hs hnow
      simp only [SharedField.key, ClockState.current, ClockState.answer]
      omega
    | tickCount =>
      have := toNat_keQueryInterruptTime h hs hnow
      simp only [SharedField.key, ClockState.current, ClockState.answer, UInt64.toNat_div]
      exact Int.ofNat_le.mpr (Nat.div_le_div_right (by omega))
  set t ht now hnow := by
    rw [signed_keQuerySystemTime h hs hnow]
    have := hs.set t ht
    have := fraction_later (s := s) h hnow
    omega
  ticks := hticks

/-! ## The page -/

theorem read_of (v : UInt64) : (KSystemTime.of v).read = some v := by
  have hv := v.toNat_lt
  rw [KSystemTime.of, KSystemTime.read, if_pos rfl, some.injEq, ← UInt64.toNat_inj]
  simp only [highPart, UInt64.toNat_add, UInt64.toNat_mul, UInt32.toNat_toUInt64,
    UInt64.toNat_toUInt32, UInt64.toNat_shiftRight]
  rw [show (32 : UInt64).toNat % 64 = 32 from rfl, Nat.shiftRight_eq_div_pow,
    show (4294967296 : UInt64).toNat = 4294967296 from rfl]
  omega

/-- What is read when the last part is stored: the value itself, or the one that an interrupt
published in between. -/
theorem read_torn {value v : UInt64} {t : KSystemTime} {x : UInt64}
    (hhigh : t.high2Time = highPart v)
    (hlow : t.lowPart = value.toUInt32 ∨ t.lowPart = v.toUInt32)
    (hread : ({ t with high1Time := highPart value } : KSystemTime).read = some x) :
    x = value ∨ x = v := by
  unfold KSystemTime.read at hread
  split at hread
  · rename_i heq
    have heq : highPart value = highPart v := heq.trans hhigh
    have hvalue := read_of value
    have hv := read_of v
    rw [KSystemTime.of, KSystemTime.read, if_pos rfl] at hvalue hv
    rcases hlow with hlow | hlow
    · left
      rw [hlow, hvalue] at hread
      exact (some.inj hread).symm
    · right
      dsimp only at hread
      rw [hlow, heq, hv] at hread
      exact (some.inj hread).symm
  · cases hread

theorem PastValue.mono {v : UInt64} (h : PastValue s f v)
    (hle : f.key (s.current f) ≤ f.key (s'.current f)) : PastValue s' f v :=
  le_trans h hle

theorem fieldInv_of : FieldInv s f (.of (s.current f)) := by
  intro v hv
  rw [read_of] at hv
  rw [← some.inj hv]
  exact le_rfl

theorem PageInv.congr (h : PageInv s) (hpage : s'.page = s.page)
    (hpublication : s'.publication = s.publication) (hcurrent : s'.current = s.current) :
    PageInv s' := by
  have hpast : ∀ {f v}, PastValue s f v → PastValue s' f v := by
    intro f v hv
    exact hv.mono (by rw [hcurrent])
  refine ⟨?_, ?_, ?_, ?_⟩
  · rw [hpublication, hpage]
    exact fun hnone p hp f v hv => hpast (h.idle hnone p hp f v hv)
  · rw [hpublication, hpage]
    exact fun pub hpub p hp f hf v hv => hpast (h.done pub hpub p hp f hf v hv)
  · rw [hpublication, hpage]
    intro pub hpub p hp
    have hphase := h.phase pub hpub p hp
    unfold PhaseInv at *
    split
    · trivial
    · trivial
    · rename_i heq
      rw [heq] at hphase
      exact hpast hphase
    · rename_i heq
      rw [heq] at hphase
      exact ⟨hpast hphase.1, hphase.2.imp fun v hv => ⟨hpast hv.1, hv.2⟩⟩
    · rename_i heq
      rw [heq] at hphase
      exact ⟨hpast hphase.1, hphase.2.imp fun v hv => ⟨hpast hv.1, hv.2⟩⟩
  · rw [hpublication]
    exact fun pub hpub hne => hpast (h.tickMs pub hpub hne)

theorem PageInv.published (h : PageInv s)
    (hcurrent : ∀ f, SharedField.key f (s.current f) ≤ SharedField.key f (s'.current f))
    (hpage : ∀ p, s'.page = some p →
      s.page.isSome = true ∧ p = fun f => .of (s'.current f))
    (hpublication : s'.publication = s.publication) : PageInv s' := by
  have hpast : ∀ {f v}, PastValue s f v → PastValue s' f v := fun hv => hv.mono (hcurrent _)
  refine ⟨?_, ?_, ?_, ?_⟩
  · intro _ p hp f
    rw [(hpage p hp).2]
    exact fieldInv_of
  · intro pub _ p hp f _
    rw [(hpage p hp).2]
    exact fieldInv_of
  · intro pub hpub p hp
    obtain ⟨hold, rfl⟩ := hpage p hp
    obtain ⟨q, hq⟩ := isSome_iff_exists.mp hold
    have hphase := h.phase pub (hpublication ▸ hpub) q hq
    unfold PhaseInv at *
    split
    · trivial
    · trivial
    · rename_i heq
      rw [heq] at hphase
      exact hpast hphase
    · rename_i heq
      rw [heq] at hphase
      exact ⟨hpast hphase.1, _, le_rfl, rfl⟩
    · rename_i heq
      rw [heq] at hphase
      exact ⟨hpast hphase.1, _, le_rfl, rfl, .inr rfl⟩
  · exact fun pub hpub hne => hpast (h.tickMs pub (hpublication ▸ hpub) hne)

theorem store_page {g : SharedField} {change : KSystemTime → KSystemTime}
    {p : SharedField → KSystemTime} (hp : (s.store f change).page = some p) :
    ∃ q, s.page = some q ∧ p g = if g = f then change (q f) else q g := by
  obtain ⟨q, hq, rfl⟩ := map_eq_some_iff.mp hp
  exact ⟨q, hq, Function.update_apply ..⟩

theorem not_mem_done : f ∉ f.done := by
  cases f <;> decide

theorem done_store {change : KSystemTime → KSystemTime}
    (h : PageInv s) (hpub : s.publication = some pub) {p : SharedField → KSystemTime}
    (hp : (s.store pub.field change).page = some p) (hf : f ∈ pub.field.done) :
    FieldInv s f (p f) := by
  obtain ⟨q, hq, heq⟩ := store_page (g := f) hp
  have hne : f ≠ pub.field := fun heq => not_mem_done (heq ▸ hf)
  rw [heq, if_neg hne]
  exact h.done pub hpub q hq f hf

theorem PageInv.advance (pub' : Publication)
    (change : KSystemTime → KSystemTime) (h : PageInv s) (hpub : s.publication = some pub) (hfield : pub'.field = pub.field)
    (hphase : ∀ t, PhaseInv s pub t → PhaseInv s pub' (change t))
    (htick : PastValue s .tickCount pub'.tickMs) :
    PageInv { s.store pub.field change with publication := some pub' } := by
  have hpast : ∀ {f v}, PastValue s f v →
      PastValue { s.store pub.field change with publication := some pub' } f v := by
    intro f v hv
    exact hv.mono (by cases f <;> exact le_rfl)
  refine ⟨nofun, ?_, ?_, ?_⟩
  · intro q hq p hp f hf v hv
    obtain rfl : pub' = q := some.inj hq
    rw [hfield] at hf
    exact hpast (done_store h hpub hp hf v hv)
  · intro q hq p hp
    obtain rfl : pub' = q := some.inj hq
    obtain ⟨q, hq, heq⟩ := store_page (g := pub.field) hp
    rw [hfield, heq, if_pos rfl]
    have hnew := hphase _ (h.phase pub hpub q hq)
    unfold PhaseInv at *
    split
    · trivial
    · trivial
    · rename_i hcase
      rw [hcase] at hnew
      exact hpast hnew
    · rename_i hcase
      rw [hcase] at hnew
      exact ⟨hpast hnew.1, hnew.2.imp fun v hv => ⟨hpast hv.1, hv.2⟩⟩
    · rename_i hcase
      rw [hcase] at hnew
      exact ⟨hpast hnew.1, hnew.2.imp fun v hv => ⟨hpast hv.1, hv.2⟩⟩
  · intro q hq _
    obtain rfl : pub' = q := some.inj hq
    exact hpast htick

theorem PageInv.next {pub' : Option Publication} (h : PageInv s)
    (hpub : s.publication = some pub) (hphase : pub.phase = .high1)
    (hnone : pub' = none → ∀ f, f ∈ pub.field :: pub.field.done)
    (hsome : ∀ p, pub' = some p → p.phase = .evaluate ∧ p.tickMs = pub.tickMs ∧
      ∀ f ∈ p.field.done, f ∈ pub.field :: pub.field.done) :
    PageInv { s.store pub.field (fun t => { t with high1Time := highPart pub.value }) with
      publication := pub' } := by
  have hfield : ∀ p, (s.store pub.field
      (fun t => { t with high1Time := highPart pub.value })).page = some p →
        ∀ f ∈ pub.field :: pub.field.done, FieldInv s f (p f) := by
    intro p hp f hf
    rcases List.mem_cons.mp hf with rfl | hf
    · intro v hv
      obtain ⟨q, hq, heq⟩ := store_page (g := pub.field) hp
      rw [heq, if_pos rfl] at hv
      have hold := h.phase pub hpub q hq
      unfold PhaseInv at hold
      rw [hphase] at hold
      obtain ⟨hvalue, v', hv', hhigh, hlow⟩ := hold
      rcases read_torn hhigh hlow hv with rfl | rfl
      · exact hvalue
      · exact hv'
    · exact done_store h hpub hp hf
  have hpast : ∀ {f v}, PastValue s f v → PastValue
      { s.store pub.field (fun t => { t with high1Time := highPart pub.value }) with
        publication := pub' } f v := by
    intro f v hv
    exact hv.mono (by cases f <;> exact le_rfl)
  refine ⟨?_, ?_, ?_, ?_⟩
  · exact fun heq p hp f v hv => hpast (hfield p hp f (hnone heq f) v hv)
  · exact fun q hq p hp f hf v hv => hpast (hfield p hp f ((hsome q hq).2.2 f hf) v hv)
  · intro q hq p hp
    unfold PhaseInv
    rw [(hsome q hq).1]
    trivial
  · intro q hq _
    rw [(hsome q hq).2.1]
    exact hpast (h.tickMs pub hpub (by rw [hphase]; exact nofun))

theorem store_id : s.store f id = s := by
  cases s with
  | mk =>
    unfold ClockState.store
    simp only [ClockState.mk.injEq, true_and, and_true]
    rename_i page _ _ _ _
    cases page with
    | none => rfl
    | some p => simp

theorem PageInv.publishStep (h : PageInv s) : PageInv s.publishStep := by
  unfold ClockState.publishStep
  split
  · exact h
  · rename_i pub hpub
    split
    · rename_i hphase
      have := h.advance { pub with phase := .evaluate, tickMs := s.interruptTime / 10000 } id hpub rfl
        (fun t _ => trivial) le_rfl
      rwa [store_id] at this
    · rename_i hphase
      have htick := h.tickMs pub hpub (by rw [hphase]; exact nofun)
      have := h.advance { pub with
          phase := .high2
          value := if pub.field = .tickCount then pub.tickMs else s.current pub.field } id hpub rfl
        (fun t _ => ?_) htick
      · rwa [store_id] at this
      · show PastValue s pub.field _
        split
        · rename_i hfield
          rw [hfield]
          exact htick
        · exact le_rfl
    · rename_i hphase
      refine h.advance _ _ hpub rfl (fun t hold => ?_)
        (h.tickMs pub hpub (by rw [hphase]; exact nofun))
      unfold PhaseInv at hold
      rw [hphase] at hold
      exact ⟨hold, pub.value, hold, rfl⟩
    · rename_i hphase
      refine h.advance _ _ hpub rfl (fun t hold => ?_)
        (h.tickMs pub hpub (by rw [hphase]; exact nofun))
      unfold PhaseInv at hold
      rw [hphase] at hold
      exact ⟨hold.1, hold.2.imp fun v hv => ⟨hv.1, hv.2, .inl rfl⟩⟩
    · rename_i hphase
      refine h.next hpub hphase ?_ ?_
      · cases hfield : pub.field with
        | interruptTime => exact nofun
        | systemTime => exact nofun
        | tickCount =>
          intro _ f
          cases f <;> decide
      · intro p hp
        cases hfield : pub.field with
        | interruptTime =>
          rw [hfield] at hp
          cases hp
          exact ⟨rfl, rfl, fun _ hf => hf⟩
        | systemTime =>
          rw [hfield] at hp
          cases hp
          exact ⟨rfl, rfl, fun f hf => by simpa [SharedField.done, or_comm] using hf⟩
        | tickCount =>
          rw [hfield] at hp
          cases hp

/-! ## Steps -/

/-- The clock after an interrupt, before it publishes. -/
def ticked (rate now : UInt64) (c : Charge) (s : ClockState) : ClockState :=
  let elapsed := now - s.tickTsc
  let ticks := kiTicksElapsed elapsed rate
  ({ s with
    tickCount := s.tickCount + ticks
    interruptTime := s.interruptTime + ticks * ki100nsPerTick
    catchUpTicks := s.catchUpTicks + (ticks - 1)
    tickTsc := if rate ≠ 0 ∧ ticks * rate ≤ elapsed then s.tickTsc + ticks * rate else now
    lastTsc := now } : ClockState).charge c (ticks * ki100nsPerTick)

theorem kiUpdateClock_eq {c : Charge}
    (hsum : s.idleTime + s.totalKernelTime + s.totalUserTime = s.interruptTime) :
    s.kiUpdateClock rate now c = some (ticked rate now c s).publish := by
  rw [ClockState.kiUpdateClock]
  refine if_pos ?_
  have hadd : ∀ a b d e : UInt64, a + b + d + e = a + e + b + d ∧ a + b + d + e = a + (b + e) + d := by
    intro a b d e
    constructor <;> ac_rfl
  cases c with
  | idle => simp only [ClockState.charge, ← hsum]; exact (hadd _ _ _ _).1.symm
  | kernel => simp only [ClockState.charge, ← hsum]; exact (hadd _ _ _ _).2.symm
  | user => simp only [ClockState.charge, ← hsum]; ac_rfl

theorem ClockInv.sum (hs : ClockInv rate s) :
    s.idleTime + s.totalKernelTime + s.totalUserTime = s.interruptTime := by
  rw [← UInt64.toNat_inj, UInt64.toNat_add, UInt64.toNat_add, Nat.mod_add_mod, hs.totals]
  exact Nat.mod_eq_of_lt s.interruptTime.toNat_lt

section Ticked
variable {c : Charge}

theorem ticked_interruptTime : (ticked rate now c s).interruptTime =
    s.interruptTime + kiTicksElapsed (now - s.tickTsc) rate * ki100nsPerTick := by
  cases c <;> rfl

theorem ticked_tickCount : (ticked rate now c s).tickCount =
    s.tickCount + kiTicksElapsed (now - s.tickTsc) rate := by
  cases c <;> rfl

theorem ticked_base : (ticked rate now c s).systemTimeBase = s.systemTimeBase := by
  cases c <;> rfl

theorem ticked_lastTsc : (ticked rate now c s).lastTsc = now := by
  cases c <;> rfl

theorem ticked_same : (ticked rate now c s).page = s.page ∧
    (ticked rate now c s).publication = s.publication ∧ (ticked rate now c s).queries = s.queries ∧
      (ticked rate now c s).setTo = s.setTo := by
  cases c <;> exact ⟨rfl, rfl, rfl, rfl⟩

theorem ticked_fraction (h : RateFits rate) (hbase : s.tickTsc ≤ now) :
    (ticked rate now c s).tickTsc ≤ now ∧
      fraction rate.toNat (now.toNat - s.tickTsc.toNat) ≤
        (kiTicksElapsed (now - s.tickTsc) rate).toNat * 10000 +
          fraction rate.toNat (now.toNat - (ticked rate now c s).tickTsc.toNat) := by
  have hrate : rate ≠ 0 := by
    rintro rfl
    exact absurd h.1 (by decide)
  have helapsed : (now - s.tickTsc).toNat = now.toNat - s.tickTsc.toNat :=
    UInt64.toNat_sub_of_le _ _ hbase
  have hle : s.tickTsc.toNat ≤ now.toNat := hbase
  have hticks := toNat_kiTicksElapsed (now - s.tickTsc) h.1
  have htsc : (ticked rate now c s).tickTsc =
      if rate ≠ 0 ∧ kiTicksElapsed (now - s.tickTsc) rate * rate ≤ now - s.tickTsc then
        s.tickTsc + kiTicksElapsed (now - s.tickTsc) rate * rate else now := by
    cases c <;> rfl
  have hnow := now.toNat_lt
  rw [helapsed] at hticks
  by_cases hearly : now.toNat - s.tickTsc.toNat < rate.toNat
  · -- an interrupt that is early: one tick, and the base is the reading or what is less
    have hzero : (now.toNat - s.tickTsc.toNat) / rate.toNat = 0 := Nat.div_eq_of_lt hearly
    rw [if_pos hzero] at hticks
    have hone : kiTicksElapsed (now - s.tickTsc) rate = 1 := UInt64.toNat_inj.mp hticks
    have hnot : ¬ (rate ≠ 0 ∧ kiTicksElapsed (now - s.tickTsc) rate * rate ≤ now - s.tickTsc) := by
      rintro ⟨-, hmul⟩
      rw [hone, UInt64.one_mul, UInt64.le_iff_toNat_le, helapsed] at hmul
      omega
    rw [htsc, if_neg hnot, hticks]
    exact ⟨UInt64.le_refl _, (fraction_early hearly).trans (Nat.le_add_right _ _)⟩
  · have hpos : (now.toNat - s.tickTsc.toNat) / rate.toNat ≠ 0 := by
      rw [Nat.div_ne_zero_iff]
      exact ⟨h.1.ne', not_lt.mp hearly⟩
    rw [if_neg hpos] at hticks
    have hmul : (kiTicksElapsed (now - s.tickTsc) rate).toNat * rate.toNat ≤
        now.toNat - s.tickTsc.toNat := by
      rw [hticks]
      exact (Nat.mul_le_mul_right _ (min_le_left _ _)).trans (Nat.div_mul_le_self _ _)
    have hproduct : (kiTicksElapsed (now - s.tickTsc) rate * rate).toNat =
        (kiTicksElapsed (now - s.tickTsc) rate).toNat * rate.toNat := by
      rw [UInt64.toNat_mul]
      exact Nat.mod_eq_of_lt (by omega)
    have hyes : rate ≠ 0 ∧ kiTicksElapsed (now - s.tickTsc) rate * rate ≤ now - s.tickTsc := by
      refine ⟨hrate, ?_⟩
      rw [UInt64.le_iff_toNat_le, hproduct, helapsed]
      exact hmul
    have hsum : (s.tickTsc + kiTicksElapsed (now - s.tickTsc) rate * rate).toNat =
        s.tickTsc.toNat + (kiTicksElapsed (now - s.tickTsc) rate).toNat * rate.toNat := by
      rw [UInt64.toNat_add, hproduct]
      exact Nat.mod_eq_of_lt (by omega)
    rw [htsc, if_pos hyes, UInt64.le_iff_toNat_le, hsum]
    refine ⟨by omega, ?_⟩
    rw [Nat.sub_add_eq]
    refine fraction_rebase h.1 ?_ hmul
    rw [hticks]
    rcases le_total ((now.toNat - s.tickTsc.toNat) / rate.toNat) 1000 with hsmall | hlarge
    · exact .inl (min_eq_left hsmall)
    · right
      rw [min_eq_right hlarge]
      decide

end Ticked

theorem ClockInv.interrupt {c : Charge} (h : RateFits rate) (hs : ClockInv rate s)
    (hnow : s.lastTsc ≤ now) (hrange : ClockOp.InRange rate (.interrupt now c) s) :
    ClockInv rate (ticked rate now c s).publish := by
  obtain ⟨hroom, hsystem⟩ := hrange
  obtain ⟨hbase, hfraction⟩ := ticked_fraction (c := c) h (UInt64.le_trans hs.base hnow)
  obtain ⟨hpage, hpublication, hqueries, hset⟩ := @ticked_same rate now s c
  have hadvance : (kiTicksElapsed (now - s.tickTsc) rate * ki100nsPerTick).toNat =
      (kiTicksElapsed (now - s.tickTsc) rate).toNat * 10000 := by
    rw [UInt64.toNat_mul, show ki100nsPerTick.toNat = 10000 from rfl]
    exact Nat.mod_eq_of_lt (by omega)
  have htime : (ticked rate now c s).interruptTime.toNat = s.interruptTime.toNat +
      (kiTicksElapsed (now - s.tickTsc) rate).toNat * 10000 := by
    rw [ticked_interruptTime, UInt64.toNat_add, hadvance]
    exact Nat.mod_eq_of_lt (by omega)
  have hsigned : signed (s.systemTimeBase + (ticked rate now c s).interruptTime) =
      signed (s.systemTimeBase + s.interruptTime) +
        (kiTicksElapsed (now - s.tickTsc) rate).toNat * 10000 := by
    rw [ticked_interruptTime, ← UInt64.add_assoc, signed_add (by rw [hadvance]; omega), hadvance]
    omega
  have hold := fraction_later (s := s) h hnow
  refine
    { base := ticked_lastTsc (s := s) ▸ hbase
      totals := ?_, ticks := ?_, room := ?_, systemRoom := ?_, monotone := ?_, asked := ?_
      set := ?_, page := ?_ }
  · show (ticked rate now c s).idleTime.toNat + (ticked rate now c s).totalKernelTime.toNat +
      (ticked rate now c s).totalUserTime.toNat = (ticked rate now c s).interruptTime.toNat
    rw [htime]
    have := hs.totals
    cases c with
    | idle =>
      show (s.idleTime + _).toNat + _ + _ = _
      rw [UInt64.toNat_add, hadvance, Nat.mod_eq_of_lt (by omega)]
      show _ + s.totalKernelTime.toNat + s.totalUserTime.toNat = _
      omega
    | user =>
      show _ + _ + (s.totalUserTime + _).toNat = _
      rw [UInt64.toNat_add, hadvance, Nat.mod_eq_of_lt (by omega)]
      show s.idleTime.toNat + s.totalKernelTime.toNat + _ = _
      omega
    | kernel =>
      show _ + (s.totalKernelTime + _).toNat + _ = _
      rw [UInt64.toNat_add, hadvance, Nat.mod_eq_of_lt (by omega)]
      show s.idleTime.toNat + _ + s.totalUserTime.toNat = _
      omega
  · show (ticked rate now c s).interruptTime.toNat = (ticked rate now c s).tickCount.toNat * 10000
    have := hs.ticks
    rw [htime, ticked_tickCount, UInt64.toNat_add, Nat.mod_eq_of_lt (by omega)]
    omega
  · show (ticked rate now c s).interruptTime.toNat + 399999 < 2 ^ 64
    omega
  · show signed ((ticked rate now c s).systemTimeBase + (ticked rate now c s).interruptTime) + 399999 <
      2 ^ 63
    rw [ticked_base, hsigned]
    omega
  · show (ticked rate now c s).queries.Pairwise _
    rw [hqueries]
    exact hs.monotone
  · intro q hq
    have hq : q ∈ s.queries := hqueries ▸ hq
    have hasked := hs.asked q hq
    show q.toNat ≤ (ticked rate now c s).interruptTime.toNat +
      fraction rate.toNat ((ticked rate now c s).lastTsc.toNat - (ticked rate now c s).tickTsc.toNat)
    rw [htime, ticked_lastTsc]
    omega
  · intro t ht
    have hbound := hs.set t (hset ▸ ht)
    show signed t ≤
      signed ((ticked rate now c s).systemTimeBase + (ticked rate now c s).interruptTime) + _
    show signed t ≤ _ +
      (fraction rate.toNat ((ticked rate now c s).lastTsc.toNat -
        (ticked rate now c s).tickTsc.toNat) : ℤ)
    rw [ticked_base, hsigned, ticked_lastTsc]
    omega
  · refine hs.page.published ?_ ?_ hpublication
    · intro f
      cases f with
      | interruptTime =>
        show ((s.interruptTime.toNat : ℕ) : ℤ) ≤ ((ticked rate now c s).interruptTime.toNat : ℕ)
        omega
      | systemTime =>
        show signed (s.systemTimeBase + s.interruptTime) ≤
          signed ((ticked rate now c s).systemTimeBase + (ticked rate now c s).interruptTime)
        rw [ticked_base, hsigned]
        omega
      | tickCount =>
        show ((s.interruptTime / 10000).toNat : ℤ) ≤ ((ticked rate now c s).interruptTime / 10000).toNat
        rw [UInt64.toNat_div, UInt64.toNat_div]
        exact Int.ofNat_le.mpr (Nat.div_le_div_right (by omega))
    · intro p hp
      obtain ⟨q, hq, rfl⟩ := map_eq_some_iff.mp hp
      exact ⟨by rw [← hpage, hq]; rfl, rfl⟩

theorem ClockInv.query (h : RateFits rate) (hs : ClockInv rate s) (hnow : s.lastTsc ≤ now) :
    ClockInv rate { s with lastTsc := now, queries := s.keQueryInterruptTime rate now :: s.queries } := by
  have hquery := toNat_keQueryInterruptTime h hs hnow
  have hold := fraction_later (s := s) h hnow
  refine { hs with base := UInt64.le_trans hs.base hnow, monotone := ?_, asked := ?_, set := ?_, page := ?_ }
  · refine List.pairwise_cons.mpr ⟨fun q hq => ?_, hs.monotone⟩
    have := hs.asked q hq
    show q ≤ _
    rw [UInt64.le_iff_toNat_le, hquery]
    omega
  · intro q hq
    show q.toNat ≤ s.interruptTime.toNat + fraction rate.toNat (now.toNat - s.tickTsc.toNat)
    rcases List.mem_cons.mp hq with rfl | hq
    · exact hquery.le
    · have := hs.asked q hq
      omega
  · intro t ht
    have := hs.set t ht
    show signed t ≤ signed (s.systemTimeBase + s.interruptTime) +
      (fraction rate.toNat (now.toNat - s.tickTsc.toNat) : ℤ)
    omega
  · refine hs.page.congr rfl rfl ?_
    funext f
    cases f <;> rfl

theorem signed_sub (h : -2 ^ 63 ≤ signed a - b.toNat) :
    signed (a - b) = signed a - b.toNat := by
  have ha := a.toNat_lt
  have hb := b.toNat_lt
  have hab : (a - b).toNat = (2 ^ 64 - b.toNat + a.toNat) % 2 ^ 64 := UInt64.toNat_sub a b
  unfold signed at *
  split at h <;> split <;> omega

theorem sub_add_left {c : UInt64} : a - (b + c) + b = a - c := by
  have := a.toNat_lt
  have := b.toNat_lt
  have := c.toNat_lt
  rw [← UInt64.toNat_inj]
  simp only [UInt64.toNat_add, UInt64.toNat_sub]
  omega

theorem ClockInv.setSystemTime {newTime : UInt64} (h : RateFits rate) (hs : ClockInv rate s)
    (hnow : s.lastTsc ≤ now) (hrange : ClockOp.InRange rate (.setSystemTime newTime now) s) :
    ClockInv rate (s.keSetSystemTime rate newTime now) := by
  obtain ⟨hlow, hhigh⟩ := hrange
  have hfraction := toNat_kiTickFraction h (UInt64.le_trans hs.base hnow)
  have hbound := fraction_le (now.toNat - s.tickTsc.toNat) h.1
  have hold := fraction_later (s := s) h hnow
  -- the fraction is taken off the new time
  have hsigned : signed (newTime - s.keQueryInterruptTime rate now + s.interruptTime) =
      signed newTime - fraction rate.toNat (now.toNat - s.tickTsc.toNat) := by
    have hsub : newTime - s.keQueryInterruptTime rate now + s.interruptTime =
        newTime - kiTickFraction rate now s.tickTsc := sub_add_left
    rw [hsub, signed_sub (by rw [hfraction]; omega), hfraction]
  refine
    { base := UInt64.le_trans hs.base hnow
      totals := hs.totals, ticks := hs.ticks, room := hs.room, systemRoom := ?_
      monotone := hs.monotone, asked := ?_, set := ?_, page := ?_ }
  · show signed (newTime - s.keQueryInterruptTime rate now + s.interruptTime) + 399999 < 2 ^ 63
    rw [hsigned]
    omega
  · intro q hq
    have := hs.asked q hq
    show q.toNat ≤ s.interruptTime.toNat + fraction rate.toNat (now.toNat - s.tickTsc.toNat)
    omega
  · intro t ht
    obtain rfl : newTime = t := some.inj ht
    show signed newTime ≤ signed (newTime - s.keQueryInterruptTime rate now + s.interruptTime) +
      (fraction rate.toNat (now.toNat - s.tickTsc.toNat) : ℤ)
    rw [hsigned]
    omega
  · have hpublication : ∀ pub, (s.keSetSystemTime rate newTime now).publication = some pub →
        pub = ⟨.interruptTime, .tickMs, 0, 0⟩ := by
      intro pub hpub
      simp only [ClockState.keSetSystemTime] at hpub
      split at hpub
      · exact (some.inj hpub).symm
      · cases hpub
    refine ⟨?_, ?_, ?_, ?_⟩
    · intro hnone p hp
      simp only [ClockState.keSetSystemTime] at hnone hp
      rw [hp] at hnone
      cases hnone
    · intro pub hpub p hp f hf
      rw [hpublication pub hpub] at hf
      cases hf
    · intro pub hpub p hp
      rw [hpublication pub hpub]
      trivial
    · intro pub hpub hne
      rw [hpublication pub hpub] at hne
      exact absurd rfl hne

theorem ClockInv.republish (hs : ClockInv rate s) {page : Option (SharedField → KSystemTime)}
    {publication : Option Publication} (hpage : PageInv { s with page, publication }) :
    ClockInv rate { s with page, publication } :=
  { hs with page := hpage }

theorem publishStep_eq :
    s.publishStep = { s with page := s.publishStep.page, publication := s.publishStep.publication } := by
  unfold ClockState.publishStep
  split
  · rfl
  · split <;> rfl

theorem ClockInv.step_interrupt {c : Charge} (hs : ClockInv rate s) :
    (ClockOp.interrupt now c).step rate s = some (ticked rate now c s).publish :=
  kiUpdateClock_eq hs.sum

theorem ClockInv.step {op : ClockOp} (h : RateFits rate) (hs : ClockInv rate s)
    (hnow : s.lastTsc ≤ op.now s) (hrange : op.InRange rate s) :
    ∃ s', op.step rate s = some s' ∧ ClockInv rate s' := by
  cases op with
  | interrupt now c =>
    exact ⟨_, hs.step_interrupt, hs.interrupt h hnow hrange⟩
  | query now =>
    cases hpub : s.publication with
    | none => exact ⟨_, by simp only [ClockOp.step, hpub]; rfl, hs.query h hnow⟩
    | some pub => exact ⟨s, by simp only [ClockOp.step, hpub], hs⟩
  | setSystemTime newTime now =>
    cases hpub : s.publication with
    | none => exact ⟨_, by simp only [ClockOp.step, hpub]; rfl, hs.setSystemTime h hnow hrange⟩
    | some pub => exact ⟨s, by simp only [ClockOp.step, hpub], hs⟩
  | seed =>
    cases hpub : s.publication with
    | none =>
      refine ⟨{ s with page := some fun f => .of (s.current f) }, by simp only [ClockOp.step, hpub],
        { hs with page := ⟨?_, ?_, ?_, ?_⟩ }⟩
      · intro _ p hp f
        obtain rfl := some.inj hp
        exact fieldInv_of
      · exact fun pub hsome => by cases hsome.symm.trans hpub
      · exact fun pub hsome => by cases hsome.symm.trans hpub
      · exact fun pub hsome => by cases hsome.symm.trans hpub
    | some pub => exact ⟨s, by simp only [ClockOp.step, hpub], hs⟩
  | publish =>
    refine ⟨s.publishStep, rfl, ?_⟩
    rw [publishStep_eq]
    refine hs.republish ?_
    rw [← publishStep_eq]
    exact hs.page.publishStep

theorem ClockInitial.inv (h : ClockInitial s) : ClockInv rate s := by
  refine
    { base := h.tickTsc ▸ UInt64.le_refl _
      totals := ?_, ticks := ?_, room := ?_, systemRoom := ?_, monotone := ?_, asked := ?_
      set := ?_, page := ⟨?_, ?_, ?_, ?_⟩ }
  · rw [h.idle, h.kernel, h.user, h.interruptTime]
    rfl
  · rw [h.interruptTime, h.tickCount]
    rfl
  · rw [h.interruptTime]
    decide
  · have := h.base
    rw [h.interruptTime, UInt64.add_zero, signed, if_pos (by omega)]
    omega
  · rw [h.queries]
    exact .nil
  · rw [h.queries]
    exact fun q hq => by cases hq
  · rw [h.setTo]
    exact nofun
  · rw [h.page]
    exact fun _ p hp => by cases hp
  · rw [h.publication]
    exact fun p hp => by cases hp
  · rw [h.publication]
    exact fun p hp => by cases hp
  · rw [h.publication]
    exact fun p hp => by cases hp

theorem ClockRun.inv (h : RateFits rate) (h₀ : ClockInitial s₀)
    (hrun : ClockRun rate (ClockOp.InRange rate) s₀ s) : ClockInv rate s := by
  induction hrun with
  | refl => exact h₀.inv
  | step _ _ hnow hrange hstep ih =>
    obtain ⟨s', hstep', hs'⟩ := ih.step h hnow hrange
    rw [hstep] at hstep'
    exact some.inj hstep' ▸ hs'

/-- While the times stay in their ranges, the interrupt clock of a machine whose rate is not absurd
never goes backwards, however early, late or coalesced its interrupts are. -/
theorem clock_kept (h : RateFits rate) (h₀ : ClockInitial s₀)
    (hrun : ClockRun rate (ClockOp.InRange rate) s₀ s) : ClockKept rate s :=
  (hrun.inv h h₀).kept h fun _ _ => ⟨_, kiUpdateClock_eq (hrun.inv h h₀).sum⟩

end

/-- A machine whose clock has just been started. -/
def sampleClock : ClockState where
  tickCount := 0
  interruptTime := 0
  tickTsc := 0
  systemTimeBase := 134116992000000000
  catchUpTicks := 0
  idleTime := 0
  totalKernelTime := 0
  totalUserTime := 0
  page := none
  publication := none
  lastTsc := 0
  queries := []
  setTo := none

theorem sampleClock_initial : ClockInitial sampleClock :=
  ⟨rfl, rfl, rfl, by decide, rfl, rfl, rfl, rfl, rfl, rfl, rfl⟩

def ClockState.queried (rate now : UInt64) (s : ClockState) : ClockState :=
  { s with lastTsc := now, queries := s.keQueryInterruptTime rate now :: s.queries }

/-- A 1 GHz counter: a query, an interrupt that is early, and a query. -/
def sampleClockAfter : ClockState :=
  (ticked 1000000 999000 .kernel (sampleClock.queried 1000000 998000)).publish.queried 1000000 999500

theorem clock_kept_sample : ClockKept 1000000 sampleClockAfter := by
  have hquery : ClockRun 1000000 (ClockOp.InRange 1000000) sampleClock
      (sampleClock.queried 1000000 998000) :=
    .step (.query 998000) .refl (by decide) trivial rfl
  have hfits : RateFits 1000000 := ⟨by decide, by decide⟩
  have htick : ClockRun 1000000 (ClockOp.InRange 1000000) sampleClock
      (ticked 1000000 999000 .kernel (sampleClock.queried 1000000 998000)).publish :=
    .step (.interrupt 999000 .kernel) hquery (by decide)
      ⟨by decide +kernel, by decide +kernel⟩ (hquery.inv hfits sampleClock_initial).step_interrupt
  exact clock_kept hfits sampleClock_initial
    (.step (.query 999500) htick (by decide +kernel) trivial rfl)

/-- With a counter of 10¹⁴ cycles a millisecond the product in `KiTickFraction` overflows. -/
theorem clock_goesBack : ¬ ∀ (rate : UInt64) (s₀ s : ClockState), 0 < rate → ClockInitial s₀ →
    ClockRun rate (fun _ _ => True) s₀ s → ClockKept rate s := by
  intro h
  have hquery : ClockRun 100000000000000 (fun _ _ => True) sampleClock
      (sampleClock.queried 100000000000000 1800000000000000) :=
    .step (.query 1800000000000000) .refl (by decide) trivial rfl
  have hkept := h 100000000000000 sampleClock _ (by decide) sampleClock_initial
    (.step (.query 1850000000000000) hquery (by decide +kernel) trivial rfl)
  exact absurd hkept.monotone (by decide +kernel)

end Proskrnl.Ke
