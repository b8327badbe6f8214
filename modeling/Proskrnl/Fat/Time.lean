import Proskrnl.Library.Segments

/-!
# The times of a directory entry

`FatTimeToNtTime` and `FatNtTimeToFatTime` of `fs/fat32/fat.c`: between 100 ns ticks since 1601 and the
packed date and time of a directory entry, which has the years 1980 to 2107 and two-second steps. Years
and months are rows of segments (`Segments`), in which the loops of the source count up and down.
-/

namespace Proskrnl.Fat

open Segments (total locate)

def fatDaysPerMonth : List Nat := [31, 28, 31, 30, 31, 30, 31, 31, 30, 31, 30, 31]

def fatIsLeapYear (year : Nat) : Bool := (year % 4 = 0 ∧ year % 100 ≠ 0) ∨ year % 400 = 0

/-- `FatIsLeapYear(year) ? 366 : 365` -/
def yearLength (year : Nat) : Nat := if fatIsLeapYear year then 366 else 365

def monthLength (year month : Nat) : Nat :=
  fatDaysPerMonth.getD (month - 1) 0 + if month = 2 ∧ fatIsLeapYear year then 1 else 0

def fatDaysSinceNtEpoch (year month day : Nat) : Nat :=
  total yearLength 1601 (year - 1601) + total (monthLength year) 1 (month - 1) + (day - 1)

def fat100nsPerSecond : Nat := 10000000

structure Civil where
  year : Nat
  month : Nat
  day : Nat
  daySeconds : Nat
  deriving DecidableEq

/-- The products stay below `2^63`. -/
def fatTimeToNtTime (fatDate fatTime tenths : Nat) : Nat :=
  if fatDate = 0 then 0
  else
    let day := fatDate &&& 0x1F
    let month := (fatDate >>> 5) &&& 0x0F
    let year := 1980 + ((fatDate >>> 9) &&& 0x7F)
    let seconds := (fatTime &&& 0x1F) * 2
    let minutes := (fatTime >>> 5) &&& 0x3F
    let hours := (fatTime >>> 11) &&& 0x1F
    if month < 1 ∨ 12 < month ∨ day < 1 then 0
    else
      let totalSeconds :=
        fatDaysSinceNtEpoch year month day * 86400 + hours * 3600 + minutes * 60 + seconds
      totalSeconds * fat100nsPerSecond + tenths * 1000000

/-- The two loops of `FatNtTimeToFatTime`. -/
def civilOf (ntTime : Nat) : Civil :=
  let totalSeconds := ntTime / fat100nsPerSecond
  let days := totalSeconds / 86400
  let (year, days) := locate yearLength (days + 1) 1601 days
  let (month, days) := locate (monthLength year) 12 1 days
  { year, month, day := days + 1, daySeconds := totalSeconds % 86400 }

def Civil.clamp (c : Civil) : Civil :=
  let c := if c.year < 1980 then ⟨1980, 1, 1, 0⟩ else c
  if 2107 < c.year then { c with year := 2107 } else c

def Civil.pack (c : Civil) : Nat × Nat :=
  (((c.day &&& 0x1F) ||| ((c.month &&& 0x0F) <<< 5) ||| (((c.year - 1980) &&& 0x7F) <<< 9)) % 2 ^ 16,
    ((c.daySeconds % 60 / 2) ||| ((c.daySeconds / 60 % 60) <<< 5) |||
      ((c.daySeconds / 3600) <<< 11)) % 2 ^ 16)

def fatNtTimeToFatTime (ntTime : Nat) : Nat × Nat := (civilOf ntTime).clamp.pack

/-! ## Calendar -/

structure Civil.Valid (c : Civil) : Prop where
  year : 1601 ≤ c.year
  month : 1 ≤ c.month ∧ c.month ≤ 12
  day : 1 ≤ c.day ∧ c.day ≤ monthLength c.year c.month
  daySeconds : c.daySeconds < 86400

def Civil.seconds (c : Civil) : Nat := fatDaysSinceNtEpoch c.year c.month c.day * 86400 + c.daySeconds

def startOfYear (year : Nat) : Nat := total yearLength 1601 (year - 1601) * 86400 * fat100nsPerSecond

example : startOfYear 1980 = 119600064000000000 := by decide +kernel

variable {c : Civil} {t t' year month day date time : Nat}

theorem yearLength_pos (year : Nat) : 0 < yearLength year := by
  rw [yearLength]
  split <;> decide

theorem total_monthLength (year : Nat) : total (monthLength year) 1 12 = yearLength year := by
  rw [yearLength]
  cases h : fatIsLeapYear year <;> simp [total, monthLength, fatDaysPerMonth, h]

theorem civilOf_eq (ntTime : Nat) : ∃ n, ∃ m < 12, ∃ r < monthLength (1601 + n) (1 + m),
    civilOf ntTime = ⟨1601 + n, 1 + m, r + 1, ntTime / fat100nsPerSecond % 86400⟩ ∧
      total yearLength 1601 n + (total (monthLength (1601 + n)) 1 m + r) =
        ntTime / fat100nsPerSecond / 86400 := by
  obtain ⟨n, -, d, hd, hyear, hdays⟩ := Segments.locate_spec
    (Segments.le_total yearLength_pos 1601 (ntTime / fat100nsPerSecond / 86400 + 1))
  rw [← total_monthLength] at hd
  obtain ⟨m, hm, r, hr, hmonth, hrest⟩ := Segments.locate_spec hd
  refine ⟨n, m, hm, r, hr, ?_, by rw [hrest, hdays]⟩
  rw [civilOf]
  dsimp only
  rw [hyear]
  dsimp only
  rw [hmonth]

theorem civilOf_valid (ntTime : Nat) : (civilOf ntTime).Valid := by
  obtain ⟨n, m, hm, r, hr, heq, -⟩ := civilOf_eq ntTime
  rw [heq]
  exact ⟨Nat.le_add_right _ _, ⟨Nat.le_add_right _ _, by change 1 + m ≤ 12; omega⟩, ⟨Nat.succ_pos r, hr⟩,
    Nat.mod_lt _ (by decide)⟩

theorem seconds_civilOf (ntTime : Nat) : (civilOf ntTime).seconds = ntTime / fat100nsPerSecond := by
  obtain ⟨n, m, -, r, -, heq, hdays⟩ := civilOf_eq ntTime
  rw [heq, Civil.seconds]
  have hepoch : fatDaysSinceNtEpoch (1601 + n) (1 + m) (r + 1) = ntTime / fat100nsPerSecond / 86400 := by
    rw [← hdays, fatDaysSinceNtEpoch, Nat.add_sub_cancel_left, Nat.add_sub_cancel_left,
      Nat.add_sub_cancel, Nat.add_assoc]
  change fatDaysSinceNtEpoch (1601 + n) (1 + m) (r + 1) * 86400 + _ = _
  rw [hepoch, Nat.mul_comm]
  exact Nat.div_add_mod _ _

theorem Civil.Valid.dayOfYear_lt (h : c.Valid) :
    total (monthLength c.year) 1 (c.month - 1) + (c.day - 1) < yearLength c.year := by
  obtain ⟨hmonth, hmonth'⟩ := h.month
  obtain ⟨hday, hday'⟩ := h.day
  rw [← total_monthLength]
  refine Segments.total_add_lt ?_ (show c.month - 1 < 12 by omega)
  rw [Nat.add_sub_cancel' hmonth]
  omega

theorem Civil.Valid.civilOf_eq (h : c.Valid) (ht : t / fat100nsPerSecond = c.seconds) : civilOf t = c := by
  obtain ⟨hmonth, hmonth'⟩ := h.month
  obtain ⟨hday, hday'⟩ := h.day
  have hseconds := h.daySeconds
  have hyear := h.year
  have hdays : c.seconds / 86400 = fatDaysSinceNtEpoch c.year c.month c.day := by
    rw [Civil.seconds]
    omega
  have hrest : c.seconds % 86400 = c.daySeconds := by
    rw [Civil.seconds]
    omega
  have hlt : total (monthLength c.year) 1 (c.month - 1) + (c.day - 1) < yearLength (1601 + (c.year - 1601)) := by
    rw [Nat.add_sub_cancel' hyear]
    exact h.dayOfYear_lt
  have hepoch : fatDaysSinceNtEpoch c.year c.month c.day = total yearLength 1601 (c.year - 1601) +
      (total (monthLength c.year) 1 (c.month - 1) + (c.day - 1)) := by
    rw [fatDaysSinceNtEpoch, Nat.add_assoc]
  have hle : c.year - 1601 ≤ fatDaysSinceNtEpoch c.year c.month c.day := by
    rw [hepoch]
    exact le_trans (Segments.le_total yearLength_pos _ _) (Nat.le_add_right _ _)
  have hlocate := Segments.locate_eq (Nat.lt_succ_of_le hle) hlt
  rw [← hepoch, Nat.add_sub_cancel' hyear] at hlocate
  have hmonths : locate (monthLength c.year) 12 1
      (total (monthLength c.year) 1 (c.month - 1) + (c.day - 1)) = (1 + (c.month - 1), c.day - 1) :=
    Segments.locate_eq (by omega) (by rw [Nat.add_sub_cancel' hmonth]; omega)
  rw [Nat.add_sub_cancel' hmonth] at hmonths
  rw [civilOf, ht]
  dsimp only
  rw [hdays, hlocate]
  dsimp only
  rw [hmonths, hrest]
  dsimp only
  rw [Nat.sub_add_cancel hday]

/-! ## Packed words -/

def dateYear (date : Nat) : Nat := 1980 + date / 512 % 128
def dateMonth (date : Nat) : Nat := date / 32 % 16
def dateDay (date : Nat) : Nat := date % 32

def timeHours (time : Nat) : Nat := time / 2048 % 32
def timeMinutes (time : Nat) : Nat := time / 32 % 64
def timeSeconds (time : Nat) : Nat := time % 32 * 2

structure RealDateTime (date time : Nat) : Prop where
  date_lt : date < 2 ^ 16
  time_lt : time < 2 ^ 16
  month : 1 ≤ dateMonth date ∧ dateMonth date ≤ 12
  day : 1 ≤ dateDay date ∧ dateDay date ≤ monthLength (dateYear date) (dateMonth date)
  hours : timeHours time < 24
  minutes : timeMinutes time < 60
  seconds : timeSeconds time < 60

def civilOfPair (date time : Nat) : Civil :=
  ⟨dateYear date, dateMonth date, dateDay date,
    timeHours time * 3600 + timeMinutes time * 60 + timeSeconds time⟩

theorem fatTimeToNtTime_eq (date time tenths : Nat) :
    fatTimeToNtTime date time tenths =
      if date = 0 ∨ dateMonth date < 1 ∨ 12 < dateMonth date ∨ dateDay date < 1 then 0
      else (civilOfPair date time).seconds * fat100nsPerSecond + tenths * 1000000 := by
  have hday : date &&& 0x1F = dateDay date := Nat.and_two_pow_sub_one_eq_mod date 5
  have hmonth : (date >>> 5) &&& 0x0F = dateMonth date := by
    rw [Nat.shiftRight_eq_div_pow]
    exact Nat.and_two_pow_sub_one_eq_mod _ 4
  have hyear : (date >>> 9) &&& 0x7F = date / 512 % 128 := by
    rw [Nat.shiftRight_eq_div_pow]
    exact Nat.and_two_pow_sub_one_eq_mod _ 7
  have hseconds : time &&& 0x1F = time % 32 := Nat.and_two_pow_sub_one_eq_mod time 5
  have hminutes : (time >>> 5) &&& 0x3F = timeMinutes time := by
    rw [Nat.shiftRight_eq_div_pow]
    exact Nat.and_two_pow_sub_one_eq_mod _ 6
  have hhours : (time >>> 11) &&& 0x1F = timeHours time := by
    rw [Nat.shiftRight_eq_div_pow]
    exact Nat.and_two_pow_sub_one_eq_mod _ 5
  rw [fatTimeToNtTime, hday, hmonth, hyear, hseconds, hminutes, hhours]
  by_cases hbad : date = 0 ∨ dateMonth date < 1 ∨ 12 < dateMonth date ∨ dateDay date < 1
  · rw [if_pos hbad]
    by_cases hzero : date = 0
    · exact if_pos hzero
    · rw [if_neg hzero]
      exact if_pos (hbad.resolve_left hzero)
  · rw [if_neg hbad]
    obtain ⟨hzero, hfields⟩ := not_or.mp hbad
    rw [if_neg hzero]
    dsimp only
    rw [if_neg hfields, Civil.seconds, civilOfPair, timeSeconds, Nat.add_assoc, Nat.add_assoc,
      Nat.add_assoc]
    rfl

theorem or_shiftLeft_eq {a b i : Nat} (h : a < 2 ^ i) : a ||| (b <<< i) = b * 2 ^ i + a := by
  rw [Nat.lor_comm, ← Nat.shiftLeft_add_eq_or_of_lt h, Nat.shiftLeft_eq]

theorem pack_eq (hyear : 1980 ≤ c.year) (hyear' : c.year ≤ 2107) (hmonth : c.month < 16) (hday : c.day < 32)
    (hseconds : c.daySeconds < 86400) :
    c.pack = (c.day + c.month * 32 + (c.year - 1980) * 512,
      c.daySeconds % 60 / 2 + c.daySeconds / 60 % 60 * 32 + c.daySeconds / 3600 * 2048) := by
  have hfields : (c.day &&& 0x1F) = c.day ∧ (c.month &&& 0x0F) = c.month ∧
      ((c.year - 1980) &&& 0x7F) = c.year - 1980 := by
    refine ⟨?_, ?_, ?_⟩
    · exact (Nat.and_two_pow_sub_one_eq_mod _ 5).trans (Nat.mod_eq_of_lt hday)
    · exact (Nat.and_two_pow_sub_one_eq_mod _ 4).trans (Nat.mod_eq_of_lt hmonth)
    · exact (Nat.and_two_pow_sub_one_eq_mod _ 7).trans (Nat.mod_eq_of_lt (by omega))
  have hlow : c.day ||| (c.month <<< 5) = c.month * 2 ^ 5 + c.day := or_shiftLeft_eq hday
  have hlow' : c.daySeconds % 60 / 2 ||| ((c.daySeconds / 60 % 60) <<< 5) =
      c.daySeconds / 60 % 60 * 2 ^ 5 + c.daySeconds % 60 / 2 := or_shiftLeft_eq (by omega)
  rw [Civil.pack, hfields.1, hfields.2.1, hfields.2.2, hlow, hlow', or_shiftLeft_eq (by omega),
    or_shiftLeft_eq (by omega)]
  refine Prod.ext ?_ ?_
  · change (_ : Nat) % 2 ^ 16 = _
    rw [Nat.mod_eq_of_lt (by omega)]
    change _ = c.day + c.month * 32 + (c.year - 1980) * 512
    omega
  · change (_ : Nat) % 2 ^ 16 = _
    rw [Nat.mod_eq_of_lt (by omega)]
    change _ = c.daySeconds % 60 / 2 + c.daySeconds / 60 % 60 * 32 + c.daySeconds / 3600 * 2048
    omega

def Civil.even (c : Civil) : Civil := { c with daySeconds := c.daySeconds / 2 * 2 }

theorem civilOfPair_pack (hyear : 1980 ≤ c.year) (hyear' : c.year ≤ 2107) (hmonth : c.month < 16)
    (hday : c.day < 32) (hseconds : c.daySeconds < 86400) : civilOfPair c.pack.1 c.pack.2 = c.even := by
  rw [pack_eq hyear hyear' hmonth hday hseconds, civilOfPair, Civil.even, Civil.mk.injEq, dateYear, dateMonth,
    dateDay, timeHours, timeMinutes, timeSeconds]
  dsimp only
  refine ⟨?_, ?_, ?_, ?_⟩ <;> omega

theorem monthLength_le (year : Nat) (hmonth : 1 ≤ month ∧ month ≤ 12) : monthLength year month ≤ 31 := by
  obtain ⟨hlow, hhigh⟩ := hmonth
  rw [monthLength]
  interval_cases month <;> cases fatIsLeapYear year <;> decide

theorem real_pack (h : c.Valid) (hyear : 1980 ≤ c.year) (hyear' : c.year ≤ 2107) :
    RealDateTime c.pack.1 c.pack.2 := by
  have hmonth := h.month
  have hday := h.day
  have hseconds := h.daySeconds
  have hlength := monthLength_le c.year hmonth
  rw [pack_eq hyear hyear' (by omega) (by omega) hseconds]
  have hyearField : dateYear (c.day + c.month * 32 + (c.year - 1980) * 512) = c.year := by
    rw [dateYear]
    omega
  have hmonthField : dateMonth (c.day + c.month * 32 + (c.year - 1980) * 512) = c.month := by
    rw [dateMonth]
    omega
  have hdayField : dateDay (c.day + c.month * 32 + (c.year - 1980) * 512) = c.day := by
    rw [dateDay]
    omega
  refine ⟨by omega, by omega, ?_, ?_, ?_, ?_, ?_⟩
  · rw [hmonthField]
    exact hmonth
  · rw [hdayField, hyearField, hmonthField]
    exact hday
  · rw [timeHours]
    omega
  · rw [timeMinutes]
    omega
  · rw [timeSeconds]
    omega

/-! ## From ticks to words and back -/

def decoded (t : Nat) : Nat :=
  fatTimeToNtTime (fatNtTimeToFatTime t).1 (fatNtTimeToFatTime t).2 0

theorem clamp_of_lt (h : c.year < 1980) : c.clamp = ⟨1980, 1, 1, 0⟩ := by
  rw [Civil.clamp, if_pos h]
  rfl

theorem clamp_of_le (h : 1980 ≤ c.year) (h' : c.year ≤ 2107) : c.clamp = c := by
  rw [Civil.clamp, if_neg (Nat.not_lt.mpr h)]
  exact if_neg (Nat.not_lt.mpr h')

theorem clamp_of_gt (h : 2107 < c.year) : c.clamp = { c with year := 2107 } := by
  rw [Civil.clamp, if_neg (show ¬ c.year < 1980 by omega)]
  exact if_pos h

theorem decoded_eq (t : Nat) : decoded t = (civilOf t).clamp.even.seconds * fat100nsPerSecond := by
  have hvalid := civilOf_valid t
  have hmonth := hvalid.month
  have hday := hvalid.day
  have hseconds := hvalid.daySeconds
  have hlength := monthLength_le (civilOf t).year hmonth
  -- whichever bound is met, the fields fit their words
  have hfits : 1980 ≤ (civilOf t).clamp.year ∧ (civilOf t).clamp.year ≤ 2107 ∧
      (1 ≤ (civilOf t).clamp.month ∧ (civilOf t).clamp.month ≤ 12) ∧
      (1 ≤ (civilOf t).clamp.day ∧ (civilOf t).clamp.day < 32) ∧ (civilOf t).clamp.daySeconds < 86400 := by
    rcases Nat.lt_or_ge (civilOf t).year 1980 with hlow | hlow
    · rw [clamp_of_lt hlow]
      decide
    · rcases Nat.lt_or_ge 2107 (civilOf t).year with hhigh | hhigh
      · rw [clamp_of_gt hhigh]
        exact ⟨show 1980 ≤ 2107 by decide, le_refl _, hmonth,
          ⟨hday.1, show (civilOf t).day < 32 by omega⟩, hseconds⟩
      · rw [clamp_of_le hlow hhigh]
        exact ⟨hlow, hhigh, hmonth, ⟨hday.1, by omega⟩, hseconds⟩
  obtain ⟨hyear, hyear', hmonth', hday', hseconds'⟩ := hfits
  have hpair := civilOfPair_pack hyear hyear' (by omega) hday'.2 hseconds'
  have hmonthField : dateMonth (civilOf t).clamp.pack.1 = (civilOf t).clamp.month :=
    congrArg Civil.month hpair
  have hdayField : dateDay (civilOf t).clamp.pack.1 = (civilOf t).clamp.day := congrArg Civil.day hpair
  have hgood : ¬ ((civilOf t).clamp.pack.1 = 0 ∨ dateMonth (civilOf t).clamp.pack.1 < 1 ∨
      12 < dateMonth (civilOf t).clamp.pack.1 ∨ dateDay (civilOf t).clamp.pack.1 < 1) := by
    rw [hmonthField, hdayField]
    rintro (hzero | hbad)
    · rw [hzero] at hdayField
      have : dateDay 0 = 0 := rfl
      omega
    · omega
  rw [decoded, fatNtTimeToFatTime, fatTimeToNtTime_eq, if_neg hgood, hpair, Nat.zero_mul, Nat.add_zero]

theorem RealDateTime.encode (h : RealDateTime date time) :
    fatNtTimeToFatTime (fatTimeToNtTime date time 0) = (date, time) := by
  have hmonth := h.month
  have hday := h.day
  have hdate := h.date_lt
  have htime := h.time_lt
  have hhours := h.hours
  have hminutes := h.minutes
  have hseconds := h.seconds
  have hlength := monthLength_le (dateYear date) hmonth
  have hgood : ¬ (date = 0 ∨ dateMonth date < 1 ∨ 12 < dateMonth date ∨ dateDay date < 1) := by
    rintro (hzero | hbad)
    · rw [hzero] at hday
      exact absurd hday.1 (by decide)
    · omega
  have hyear : 1980 ≤ dateYear date ∧ dateYear date ≤ 2107 := by
    rw [dateYear]
    omega
  have hvalid : (civilOfPair date time).Valid :=
    ⟨by change 1601 ≤ dateYear date; omega, hmonth, hday,
      by change timeHours time * 3600 + timeMinutes time * 60 + timeSeconds time < 86400; omega⟩
  rw [fatTimeToNtTime_eq, if_neg hgood, Nat.zero_mul, Nat.add_zero, fatNtTimeToFatTime,
    hvalid.civilOf_eq (Nat.mul_div_cancel _ (by decide)), clamp_of_le hyear.1 hyear.2,
    pack_eq hyear.1 hyear.2 (by change dateMonth date < 16; omega) (by change dateDay date < 32; omega)
      hvalid.daySeconds]
  change (dateDay date + dateMonth date * 32 + (dateYear date - 1980) * 512, _) = _
  refine Prod.ext ?_ ?_
  · change dateDay date + dateMonth date * 32 + (dateYear date - 1980) * 512 = date
    rw [dateDay, dateMonth, dateYear]
    omega
  · change (timeHours time * 3600 + timeMinutes time * 60 + timeSeconds time) % 60 / 2 +
      (timeHours time * 3600 + timeMinutes time * 60 + timeSeconds time) / 60 % 60 * 32 +
      (timeHours time * 3600 + timeMinutes time * 60 + timeSeconds time) / 3600 * 2048 = time
    rw [timeHours, timeMinutes, timeSeconds] at *
    omega

/-! ## Years -/

theorem Civil.Valid.bounds (h : c.Valid) :
    total yearLength 1601 (c.year - 1601) ≤ fatDaysSinceNtEpoch c.year c.month c.day ∧
      fatDaysSinceNtEpoch c.year c.month c.day < total yearLength 1601 (c.year + 1 - 1601) := by
  have hday := h.dayOfYear_lt
  have hyear := h.year
  have hnext : c.year + 1 - 1601 = c.year - 1601 + 1 := by omega
  rw [fatDaysSinceNtEpoch, hnext, Segments.total_succ, Nat.add_sub_cancel' hyear]
  omega

theorem lt_startOfYear_iff (hyear : 1601 ≤ year) : t < startOfYear year ↔ (civilOf t).year < year := by
  have hvalid := civilOf_valid t
  obtain ⟨hlow, hhigh⟩ := hvalid.bounds
  have hseconds := seconds_civilOf t
  have hrest := hvalid.daySeconds
  have hfirst := hvalid.year
  rw [Civil.seconds] at hseconds
  rw [startOfYear]
  rw [fat100nsPerSecond] at hseconds ⊢
  constructor
  · intro ht
    by_contra hge
    have hmono := Segments.total_mono yearLength 1601
      (show year - 1601 ≤ (civilOf t).year - 1601 by omega)
    omega
  · intro hlt
    have hmono := Segments.total_mono yearLength 1601
      (show (civilOf t).year + 1 - 1601 ≤ year - 1601 by omega)
    omega

theorem startOfYear_even (year : Nat) : startOfYear year % 20000000 = 0 := by
  rw [startOfYear, fat100nsPerSecond]
  omega

theorem startOfYear_lt {year' : Nat} (hyear : 1601 ≤ year) (h : year < year') :
    startOfYear year < startOfYear year' := by
  have hlt := Segments.total_add_lt (yearLength_pos (1601 + (year - 1601)))
    (show year - 1601 < year' - 1601 by omega)
  rw [startOfYear, startOfYear, fat100nsPerSecond]
  omega

theorem decoded_of_year (h : 1980 ≤ (civilOf t).year) (h' : (civilOf t).year < 2108) :
    decoded t = t / 20000000 * 20000000 := by
  have hseconds := seconds_civilOf t
  rw [Civil.seconds] at hseconds
  have heven : (civilOf t).even.seconds = t / fat100nsPerSecond / 2 * 2 := by
    rw [← hseconds, Civil.even, Civil.seconds]
    dsimp only
    omega
  rw [decoded_eq, clamp_of_le h (Nat.le_of_lt_succ h'), heven, Nat.div_div_eq_div_mul, Nat.mul_assoc]
  rfl

theorem decoded_of_lt (h : (civilOf t).year < 1980) : decoded t = startOfYear 1980 := by
  rw [decoded_eq, clamp_of_lt h, Civil.even, Civil.seconds, fatDaysSinceNtEpoch, startOfYear]
  dsimp only
  rw [Nat.sub_self, Segments.total, Nat.add_zero, Nat.add_zero]

theorem decoded_le_of_lt (h : (civilOf t).year < 2108) : decoded t + 20000000 ≤ startOfYear 2108 := by
  have heven := startOfYear_even 2108
  rcases Nat.lt_or_ge (civilOf t).year 1980 with hlt | hge
  · have heven' := startOfYear_even 1980
    have hmono : startOfYear 1980 < startOfYear 2108 := startOfYear_lt (by decide) (by decide)
    rw [decoded_of_lt hlt]
    generalize startOfYear 1980 = a at heven' hmono ⊢
    generalize startOfYear 2108 = b at heven hmono ⊢
    omega
  · have ht : t < startOfYear 2108 := (lt_startOfYear_iff (by decide)).mpr h
    rw [decoded_of_year hge h]
    generalize startOfYear 2108 = b at heven ht ⊢
    omega

theorem dayOf2107 (hmonth : 1 ≤ month ∧ month ≤ 12) (hday : 1 ≤ day ∧ day ≤ monthLength year month) :
    (month = 12 ∧ day = 31 ∧ total (monthLength 2107) 1 (month - 1) + (day - 1) = 364) ∨
      (¬ (month = 12 ∧ day = 31) ∧ total (monthLength 2107) 1 (month - 1) + (day - 1) < 364) := by
  obtain ⟨hlow, hhigh⟩ := hmonth
  obtain ⟨hday, hday'⟩ := hday
  have hle := monthLength_le year ⟨hlow, hhigh⟩
  have hbefore : month < 12 → total (monthLength 2107) 1 (month - 1) ≤ 304 := by
    intro hlt
    exact (Segments.total_mono _ _ (show month - 1 ≤ 10 by omega)).trans (by decide)
  rcases Nat.lt_or_ge month 12 with hlt | hge
  · have := hbefore hlt
    exact .inr ⟨fun h => by omega, by omega⟩
  · obtain rfl : month = 12 := by omega
    have hdec : total (monthLength 2107) 1 (12 - 1) = 334 := by decide
    rw [hdec]
    rcases Nat.lt_or_ge day 31 with hlt | hge
    · exact .inr ⟨fun h => by omega, by omega⟩
    · exact .inl ⟨rfl, by omega, by omega⟩

def Civil.dayOfYear (c : Civil) : Nat := total (monthLength c.year) 1 (c.month - 1) + (c.day - 1)

theorem Civil.seconds_eq (c : Civil) :
    c.seconds = (total yearLength 1601 (c.year - 1601) + c.dayOfYear) * 86400 + c.daySeconds := by
  rw [Civil.seconds, fatDaysSinceNtEpoch, Nat.add_assoc]
  rfl

theorem decoded_of_gt (h : 2107 < (civilOf t).year) :
    decoded t = ((total yearLength 1601 506 + { civilOf t with year := 2107 }.dayOfYear) * 86400 +
      (civilOf t).daySeconds / 2 * 2) * fat100nsPerSecond := by
  have hyears : 2107 - 1601 = 506 := by decide
  rw [decoded_eq, clamp_of_gt h, Civil.seconds_eq, ← hyears]
  rfl

theorem startOfYear_2108 :
    startOfYear 2108 = (total yearLength 1601 506 + 365) * 86400 * fat100nsPerSecond := by
  have hlength : yearLength (1601 + 506) = 365 := by decide
  have hnext : 2108 - 1601 = 506 + 1 := by decide
  rw [startOfYear, hnext, Segments.total_succ, hlength]

theorem Civil.Valid.lastDay_iff (h : c.Valid) :
    c.dayOfYear + 1 = yearLength c.year ↔ c.month = 12 ∧ c.day = 31 := by
  obtain ⟨hmonth, hmonth'⟩ := h.month
  obtain ⟨hday, hday'⟩ := h.day
  have hdec : monthLength c.year (1 + 11) = 31 := rfl
  have hyear : yearLength c.year = total (monthLength c.year) 1 11 + 31 := by
    rw [← total_monthLength, Segments.total_succ, hdec]
  rw [hyear, Civil.dayOfYear]
  rcases Nat.lt_or_ge c.month 12 with hlt | hge
  · have hin : c.day - 1 < monthLength c.year (1 + (c.month - 1)) := by
      rw [Nat.add_sub_cancel' hmonth]
      omega
    have hbefore := Segments.total_add_lt hin (show c.month - 1 < 11 by omega)
    constructor
    · intro heq
      omega
    · rintro ⟨htwelve, -⟩
      omega
  · have htwelve : c.month = 12 := by omega
    have heleven : c.month - 1 = 11 := by omega
    rw [heleven]
    constructor
    · intro heq
      exact ⟨htwelve, by omega⟩
    · rintro ⟨-, hthirty⟩
      omega

def AtYearEnd (t : Nat) : Prop :=
  ∃ year, startOfYear (year + 1) ≤ t + 2 * fat100nsPerSecond ∧ t < startOfYear (year + 1)

theorem startOfYear_mono {year' : Nat} (h : year ≤ year') : startOfYear year ≤ startOfYear year' := by
  have hle := Segments.total_mono yearLength 1601 (show year - 1601 ≤ year' - 1601 by omega)
  exact Nat.mul_le_mul_right _ (Nat.mul_le_mul_right _ hle)

theorem atYearEnd_iff : AtYearEnd t ↔
    (civilOf t).month = 12 ∧ (civilOf t).day = 31 ∧ 86398 ≤ (civilOf t).daySeconds := by
  have hvalid := civilOf_valid t
  have hfirst := hvalid.year
  have hrest := hvalid.daySeconds
  have hin : (civilOf t).dayOfYear < yearLength (civilOf t).year := hvalid.dayOfYear_lt
  have hseconds := seconds_civilOf t
  -- what is left of the year of `t`
  have hleft : startOfYear ((civilOf t).year + 1) ≤ t + 2 * fat100nsPerSecond ↔
      (civilOf t).dayOfYear + 1 = yearLength (civilOf t).year ∧ 86398 ≤ (civilOf t).daySeconds := by
    have hnext : (civilOf t).year + 1 - 1601 = (civilOf t).year - 1601 + 1 := by omega
    rw [startOfYear, hnext, Segments.total_succ, Nat.add_sub_cancel' hfirst,
      ← Nat.le_div_iff_mul_le (by decide), Nat.add_mul_div_right _ _ (by decide), ← hseconds,
      Civil.seconds_eq]
    omega
  rw [← and_assoc, ← hvalid.lastDay_iff, ← hleft]
  constructor
  · rintro ⟨year, hend, ht⟩
    refine (startOfYear_mono ?_).trans hend
    rcases Nat.lt_or_ge (year + 1) 1601 with hlt | hge
    · have hzero : startOfYear (year + 1) = 0 := by
        rw [startOfYear, Nat.sub_eq_zero_of_le hlt.le, Segments.total, Nat.zero_mul]
      rw [hzero] at ht
      cases ht
    · exact (lt_startOfYear_iff hge).mp ht
  · intro hend
    exact ⟨(civilOf t).year, hend, (lt_startOfYear_iff (by omega)).mpr (Nat.lt_succ_self _)⟩

/-- A time after 2107 is read back as a time of 2107, as the last one only at the end of a year. -/
theorem decoded_of_gt_le (h : 2107 < (civilOf t).year) :
    decoded t + 2 * fat100nsPerSecond ≤ startOfYear 2108 ∧
      (decoded t + 2 * fat100nsPerSecond = startOfYear 2108 ↔ AtYearEnd t) := by
  have hvalid := civilOf_valid t
  have hrest := hvalid.daySeconds
  have hpos : 0 < fat100nsPerSecond := by decide
  rw [atYearEnd_iff, decoded_of_gt h, startOfYear_2108, ← Nat.add_mul]
  generalize total yearLength 1601 506 = days
  rw [Nat.mul_le_mul_right_iff hpos, Nat.mul_left_inj hpos.ne']
  have hday : { civilOf t with year := 2107 }.dayOfYear =
      total (monthLength 2107) 1 ((civilOf t).month - 1) + ((civilOf t).day - 1) := rfl
  rcases dayOf2107 hvalid.month hvalid.day with ⟨htwelve, hthirty, hlast⟩ | ⟨hother, hlast⟩
  · rw [hday, hlast]
    omega
  · rw [hday]
    omega

/-! ## The conversion -/

/-- A time that is converted as it should: to a real date and time, back to its even second where an entry
has its year, and not before what an earlier time is converted to. -/
structure ConvertsProperly (t : Nat) : Prop where
  real : RealDateTime (fatNtTimeToFatTime t).1 (fatNtTimeToFatTime t).2
  exact_ : startOfYear 1980 ≤ t → t < startOfYear 2108 → decoded t = t / 20000000 * 20000000
  mono : ∀ t' ≤ t, decoded t' ≤ decoded t

theorem real_of_lt (h : (civilOf t).year < 2108) :
    RealDateTime (fatNtTimeToFatTime t).1 (fatNtTimeToFatTime t).2 := by
  rw [fatNtTimeToFatTime]
  rcases Nat.lt_or_ge (civilOf t).year 1980 with hlt | hge
  · rw [clamp_of_lt hlt]
    exact real_pack ⟨by decide, by decide, by decide, by decide⟩ (by decide) (by decide)
  · rw [clamp_of_le hge (Nat.le_of_lt_succ h)]
    exact real_pack (civilOf_valid t) hge (Nat.le_of_lt_succ h)

theorem real_of_atYearEnd (h : 2107 < (civilOf t).year) (hend : AtYearEnd t) :
    RealDateTime (fatNtTimeToFatTime t).1 (fatNtTimeToFatTime t).2 := by
  obtain ⟨hmonth, hday, -⟩ := atYearEnd_iff.mp hend
  rw [fatNtTimeToFatTime, clamp_of_gt h, hmonth, hday]
  exact real_pack ⟨show 1601 ≤ 2107 by decide, show 1 ≤ 12 ∧ 12 ≤ 12 by decide,
    show 1 ≤ 31 ∧ 31 ≤ monthLength 2107 12 by decide, (civilOf_valid t).daySeconds⟩
    (show 1980 ≤ 2107 by decide) (show 2107 ≤ 2107 by decide)

theorem startOfYear_1980_le_decoded (h : (civilOf t).year < 2108) : startOfYear 1980 ≤ decoded t := by
  rcases Nat.lt_or_ge (civilOf t).year 1980 with hlt | hge
  · exact (decoded_of_lt hlt).ge
  · have heven := startOfYear_even 1980
    have ht : startOfYear 1980 ≤ t := by
      by_contra hlt
      exact absurd ((lt_startOfYear_iff (by decide)).mp (Nat.lt_of_not_le hlt)) (Nat.not_lt.mpr hge)
    rw [decoded_of_year hge h]
    generalize startOfYear 1980 = a at heven ht ⊢
    omega

theorem decoded_mono (hle : t' ≤ t) (h : (civilOf t).year < 2108) : decoded t' ≤ decoded t := by
  have hyear : 1601 ≤ 2108 := by decide
  have h' : (civilOf t').year < 2108 :=
    (lt_startOfYear_iff hyear).mp (lt_of_le_of_lt hle ((lt_startOfYear_iff hyear).mpr h))
  rcases Nat.lt_or_ge (civilOf t').year 1980 with hlt | hge
  · rw [decoded_of_lt hlt]
    exact startOfYear_1980_le_decoded h
  · have hge' : 1980 ≤ (civilOf t).year := by
      by_contra hlt
      have hbefore := (lt_startOfYear_iff (t := t) (by decide)).mpr (Nat.lt_of_not_le hlt)
      exact absurd ((lt_startOfYear_iff (by decide)).mp (lt_of_le_of_lt hle hbefore)) (Nat.not_lt.mpr hge)
    rw [decoded_of_year hge h', decoded_of_year hge' h]
    exact Nat.mul_le_mul_right _ (Nat.div_le_div_right hle)

theorem decoded_le (t : Nat) : decoded t + 2 * fat100nsPerSecond ≤ startOfYear 2108 := by
  rcases Nat.lt_or_ge (civilOf t).year 2108 with hlt | hge
  · exact decoded_le_of_lt hlt
  · exact (decoded_of_gt_le hge).1

theorem decoded_last : decoded (startOfYear 2108 - 2 * fat100nsPerSecond) + 2 * fat100nsPerSecond =
    startOfYear 2108 := by
  have hmono : startOfYear 1980 < startOfYear 2108 := startOfYear_lt (by decide) (by decide)
  have heven := startOfYear_even 1980
  have heven' := startOfYear_even 2108
  have hlt : startOfYear 2108 - 2 * fat100nsPerSecond < startOfYear 2108 := by
    generalize startOfYear 1980 = a at hmono
    generalize startOfYear 2108 = b at hmono ⊢
    rw [fat100nsPerSecond]
    omega
  have hge : startOfYear 1980 ≤ startOfYear 2108 - 2 * fat100nsPerSecond := by
    generalize startOfYear 1980 = a at hmono heven ⊢
    generalize startOfYear 2108 = b at hmono heven' ⊢
    rw [fat100nsPerSecond]
    omega
  have hyear := (lt_startOfYear_iff (by decide)).mp hlt
  have hyear' : 1980 ≤ (civilOf (startOfYear 2108 - 2 * fat100nsPerSecond)).year := by
    by_contra hlow
    exact absurd ((lt_startOfYear_iff (by decide)).mpr (Nat.lt_of_not_le hlow)) (Nat.not_lt.mpr hge)
  rw [decoded_of_year hyear' hyear]
  generalize startOfYear 1980 = a at hmono
  generalize startOfYear 2108 = b at hmono heven' ⊢
  rw [fat100nsPerSecond]
  omega

/-- Every pair that denotes a real date and time comes back, and a time is converted as it should exactly
if it is before 2108 or in the last two seconds of a year. -/
theorem fatTime_converts_iff (date time t : Nat) :
    (RealDateTime date time → fatNtTimeToFatTime (fatTimeToNtTime date time 0) = (date, time)) ∧
      (ConvertsProperly t ↔ t < startOfYear 2108 ∨ AtYearEnd t) := by
  refine ⟨fun h => h.encode, fun h => ?_, fun h => ?_⟩
  · rcases Nat.lt_or_ge t (startOfYear 2108) with hlt | hge
    · exact .inl hlt
    · have hyear : 2107 < (civilOf t).year := by
        by_contra hle
        exact absurd ((lt_startOfYear_iff (by decide)).mpr (Nat.lt_succ_of_le (Nat.not_lt.mp hle)))
          (Nat.not_lt.mpr hge)
      obtain ⟨hle, hend⟩ := decoded_of_gt_le hyear
      have hlast := h.mono (startOfYear 2108 - 2 * fat100nsPerSecond) ((Nat.sub_le _ _).trans hge)
      refine .inr (hend.mp (le_antisymm hle ?_))
      rw [← decoded_last]
      exact Nat.add_le_add_right hlast _
  · rcases Nat.lt_or_ge (civilOf t).year 2108 with hlt | hge
    · refine ⟨real_of_lt hlt, fun hlow _ => decoded_of_year ?_ hlt, fun t' hle => decoded_mono hle hlt⟩
      by_contra hyear
      exact absurd ((lt_startOfYear_iff (by decide)).mpr (Nat.lt_of_not_le hyear)) (Nat.not_lt.mpr hlow)
    · have hend : AtYearEnd t := h.resolve_left fun hlt =>
        absurd ((lt_startOfYear_iff (by decide)).mp hlt) (Nat.not_lt.mpr hge)
      refine ⟨real_of_atYearEnd hge hend, fun _ hlt => ?_, fun t' _ => ?_⟩
      · exact absurd ((lt_startOfYear_iff (by decide)).mp hlt) (Nat.not_lt.mpr hge)
      · have hlast := (decoded_of_gt_le hge).2.mpr hend
        have hle := decoded_le t'
        rw [← hlast] at hle
        exact Nat.le_of_add_le_add_right hle

/-- The leap day of 2024 at 12:34:56 comes back. -/
theorem fatTime_converts_leapDay :
    fatNtTimeToFatTime (fatTimeToNtTime 0x585D 0x645C 0) = (0x585D, 0x645C) :=
  (fatTime_converts_iff 0x585D 0x645C 0).1
    ⟨by decide, by decide, by decide, by decide, by decide, by decide, by decide⟩

/-- The leap day of 2108 becomes February 29 of 2107, which does not exist. -/
theorem fatTime_misconverts_leapDay :
    ¬ ConvertsProperly ((Civil.mk 2108 2 29 0).seconds * fat100nsPerSecond) := by
  intro h
  have hvalid : (Civil.mk 2108 2 29 0).Valid :=
    ⟨show 1601 ≤ 2108 by decide, show 1 ≤ 2 ∧ 2 ≤ 12 by decide,
      show 1 ≤ 29 ∧ 29 ≤ monthLength 2108 2 by decide, show 0 < 86400 by decide⟩
  have hcivil := hvalid.civilOf_eq (Nat.mul_div_cancel _ (show 0 < fat100nsPerSecond by decide))
  have hwords : fatNtTimeToFatTime ((Civil.mk 2108 2 29 0).seconds * fat100nsPerSecond) =
      (Civil.mk 2107 2 29 0).pack := by
    rw [fatNtTimeToFatTime, hcivil]
    rfl
  have hreal := h.real
  rw [hwords] at hreal
  exact absurd hreal.day.2 (by decide)

end Proskrnl.Fat
