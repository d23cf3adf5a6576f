import KasparHft.Gregorian
import Mathlib.Algebra.Group.Nat.Defs
import Mathlib.Data.Int.Notation

/-!
# Times

`Time.hpp`, `Time.cpp`: a time is a date as a number YYYYMMDD, and the nanoseconds since midnight.
It is made of nanoseconds since 1970 by `gmtime_r`, and days are added by `boost::gregorian`; both
know the Gregorian calendar.
-/

namespace KasparHft.Chutil

open Gregorian

/-- `_24_HOURS_ms`, `_24_HOURS_us`, `_24_HOURS_ns`. -/
def hours24Ms : UInt64 := 24 * 60 * 60 * 1000
def hours24Us : UInt64 := hours24Ms * 1000
def hours24Ns : UInt64 := hours24Us * 1000

structure Time where
  date : UInt32
  ns : UInt64
  epoch : UInt64
deriving DecidableEq, Repr

namespace Time

/-- `Time(day, _ns)`. -/
def ofDay (day : UInt32) (ns : UInt64) : Time := ⟨day, ns, 0⟩

/-- `Time(year, mon, day, h, m, s, _ns)`. -/
def ofFields (year mon day h m s : UInt32) (ns : UInt64) : Time :=
  ⟨year * 10000 + mon * 100 + day, (h * 3600 + m * 60 + s).toUInt64 * 1000 * 1000 * 1000 + ns, 0⟩

def getYear (t : Time) : UInt32 := t.date / 10000
def getMonth (t : Time) : UInt32 := t.date % 10000 / 100

/-- `is_valid`. -/
def isValid (t : Time) : Bool := t.date > 0 && t.date > 20200000

/-! ### From nanoseconds since 1970 -/

/-- `struct tm`. -/
structure Tm where
  (tmYear tmMon tmMday tmHour tmMin tmSec : ℕ)

def epochDate : Date := ⟨1970, 1, 1, valid_january 1970⟩

/-- `gmtime_r`: the calendar, without leap seconds. -/
def gmtimeR (sec : ℕ) : Tm :=
  let date := epochDate.after (sec / 86400)
  { tmYear := date.year - 1900
    tmMon := date.month - 1
    tmMday := date.day
    tmHour := sec % 86400 / 3600
    tmMin := sec % 3600 / 60
    tmSec := sec % 60 }

/-- `from_epoch`, of whole seconds, the nanoseconds behind them and `_epoch_`. -/
def fromEpochSec (sec : ℕ) (ns epoch : UInt64) : Time :=
  let tm := gmtimeR sec
  { ofFields (1900 + .ofNat tm.tmYear) (.ofNat tm.tmMon + 1) (.ofNat tm.tmMday) (.ofNat tm.tmHour)
      (.ofNat tm.tmMin) (.ofNat tm.tmSec) ns with epoch }

/-- `from_epoch`. -/
def fromEpoch (ns : UInt64) : Time :=
  let sec := ns / 1000000000
  fromEpochSec sec.toNat (ns - sec * 1000000000) ns

/-! ### Comparisons -/

/-- `operator==`: `_epoch_` is not compared. -/
def eq (t t' : Time) : Bool := t'.date == t.date && t'.ns == t.ns

/-- `operator<`. -/
def lt (t t' : Time) : Bool :=
  if t.date < t'.date then true
  else if t.date > t'.date then false
  else t.ns < t'.ns

/-- `operator<=`, `operator>` and `operator>=`. -/
def le (t t' : Time) : Bool := t.eq t' || t.lt t'
def gt (t t' : Time) : Bool := !t.le t'
def ge (t t' : Time) : Bool := t.eq t' || t.gt t'

/-! ### Arithmetic -/

/-- `operator-`. -/
def sub (t t2 : Time) : Int64 :=
  let nsDiff := t.ns.toInt64 - t2.ns.toInt64
  if t.date = t2.date then nsDiff
  else
    -- the numbers of the dates are subtracted
    let dateDiff := (t.date.toInt32 - t2.date.toInt32).toInt64
    (dateDiff.toUInt64 * hours24Ns + nsDiff.toUInt64).toInt64

/-- What `break_up` returns. -/
structure BrokenUp where
  (y mon d h m s ms : UInt32)
  (us ns : UInt64)

/-- `break_up`. -/
def breakUp (t : Time) : BrokenUp :=
  let y := t.date / 10000
  let mon := (t.date - y * 10000) / 100
  let h2 := t.ns / 3600 / 1000 / 1000 / 1000
  let m2 := (t.ns - h2 * 3600 * 1000 * 1000 * 1000) / 60 / 1000 / 1000 / 1000
  let s2 := (t.ns - (h2 * 3600 + m2 * 60) * 1000 * 1000 * 1000) / 1000 / 1000 / 1000
  let ns := t.ns - (h2 * 3600 + m2 * 60 + s2) * 1000 * 1000 * 1000
  { y, mon
    d := t.date - y * 10000 - mon * 100
    h := (t.ns / 3600 / 1000 / 1000 / 1000).toUInt32
    m := m2.toUInt32
    s := s2.toUInt32
    ms := (ns / 1000 / 1000).toUInt32
    us := ns / 1000
    ns }

/-- `hour`, `minute` and `second`. -/
def hour (t : Time) : Int32 := t.breakUp.h.toInt32
def minute (t : Time) : Int32 := t.breakUp.m.toInt32
def second (t : Time) : Int32 := t.breakUp.s.toInt32

/-- `boost::gregorian`: the year, the month and the day of a date some days later; nothing where
    it throws. -/
abbrev Boost := ℕ × ℕ × ℕ → ℤ → Option (ℕ × ℕ × ℕ)

/-- It implements the calendar, from the year 1400 to 9999. -/
def Boost.Implements (boost : Boost) : Prop :=
  ∀ (d : Date) (n : ℕ), 1400 ≤ d.year → (d.after n).year ≤ 9999 →
    boost (d.year, d.month, d.day) n =
      some ((d.after n).year, (d.after n).month, (d.after n).day)

/-- The calendar itself. -/
def Boost.calendar : Boost := fun (year, month, day) days =>
  if h : Valid year month day then
    let date := (⟨year, month, day, h⟩ : Date).after days.toNat
    some (date.year, date.month, date.day)
  else none

theorem Boost.calendar_implements : Boost.calendar.Implements := by
  intro d n _ _
  exact dif_pos d.valid

variable (boost : Boost)

/-- `add_days`. -/
def addDays (t : Time) (days : ℤ) : Option Time :=
  let b := t.breakUp
  (boost (b.y.toUInt16.toNat, b.mon.toUInt16.toNat, b.d.toUInt16.toNat) days).map
    fun (year, month, day) => ofFields (.ofNat year) (.ofNat month) (.ofNat day) b.h b.m b.s b.ns

/-- `next_day`. -/
def nextDay (t : Time) : Option Time := t.addDays boost 1

/-- `operator+`. -/
def add (t : Time) (ms : Int32) : Option Time :=
  let nms := t.ns / 1000 / 1000 + ms.toInt64.toUInt64
  let days := (nms / hours24Ms).toUInt32
  let nms := nms % hours24Ms
  if days ≠ 0 then (ofDay t.date (nms * 1000000)).addDays boost days.toInt32.toInt
  else some (ofDay t.date (nms * 1000000))

/-- `add_micros`. -/
def addMicros (t : Time) (us : Int64) : Option Time :=
  let ns2 := t.ns + (us * 1000).toUInt64
  if ns2 > hours24Ns then (ofDay t.date (ns2 % hours24Ns)).addDays boost 1
  else some (ofDay t.date ns2)

/-! ### The time at some nanoseconds since 1970 -/

/-- How many nanoseconds a day has. -/
def dayNs : ℕ := 86400000000000

def dateAt (n : ℕ) : Date := epochDate.after (n / dayNs)

/-- It is the time `n` nanoseconds after the beginning of 1970. -/
structure IsAt (t : Time) (n : ℕ) : Prop where
  date : t.date.toNat = (dateAt n).number
  ns : t.ns.toNat = n % dayNs

/-- Dates that a calendar knows. -/
theorem dateAt_mem {n : ℕ} (h : n < 2 ^ 65) :
    1970 ≤ (dateAt n).year ∧ (dateAt n).year ≤ 4000 ∧ (dateAt n).month ≤ 12 ∧
      0 < (dateAt n).month ∧ (dateAt n).day ≤ 31 := by
  have hlow : 19700101 + n / dayNs ≤ (dateAt n).number := epochDate.number_le_after (n / dayNs)
  have hhigh : 28 * (dateAt n).monthIndex ≤ 28 * 23641 + 1 + n / dayNs :=
    epochDate.monthIndex_after_le (n / dayNs)
  have hdays : n / dayNs < 430000 := by
    unfold dayNs
    omega
  have hvalid := (dateAt n).valid
  have hday := daysInMonth_mem (dateAt n).year (dateAt n).month
  have := hvalid.day_le
  have := hvalid.month_le
  have := hvalid.month_pos
  unfold Date.number at hlow
  unfold Date.monthIndex at hhigh
  omega

theorem date_ofFields {year mon day h m s : UInt32} {ns : UInt64} (hyear : year.toNat ≤ 9999)
    (hmon : mon.toNat ≤ 12) (hday : day.toNat ≤ 31) :
    (ofFields year mon day h m s ns).date.toNat =
      year.toNat * 10000 + mon.toNat * 100 + day.toNat := by
  simp only [ofFields, UInt32.toNat_add, UInt32.toNat_mul, UInt32.reduceToNat]
  omega

theorem ns_ofFields {year mon day h m s : UInt32} {ns : UInt64} (hh : h.toNat < 24)
    (hm : m.toNat < 60) (hs : s.toNat < 60) (hns : ns.toNat < 1000000000) :
    (ofFields year mon day h m s ns).ns.toNat =
      (h.toNat * 3600 + m.toNat * 60 + s.toNat) * 1000000000 + ns.toNat := by
  have hsec : (h * 3600 + m * 60 + s).toNat = h.toNat * 3600 + m.toNat * 60 + s.toNat := by
    simp only [UInt32.toNat_add, UInt32.toNat_mul, UInt32.reduceToNat]
    omega
  simp only [ofFields, UInt64.toNat_add, UInt64.toNat_mul, UInt64.reduceToNat,
    UInt32.toNat_toUInt64, hsec]
  omega

theorem toNat_uint32 {n : ℕ} (h : n < 4294967296) : (UInt32.ofNat n).toNat = n :=
  UInt32.toNat_ofNat_of_lt' h

/-- **`from_epoch`**, of seconds. -/
theorem fromEpochSec_isAt (sec : ℕ) (ns epoch : UInt64) (hsec : sec < 2 ^ 35)
    (hns : ns.toNat < 1000000000) :
    (fromEpochSec sec ns epoch).IsAt (sec * 1000000000 + ns.toNat) := by
  have hdays : (sec * 1000000000 + ns.toNat) / dayNs = sec / 86400 := by
    unfold dayNs
    omega
  have hdate : dateAt (sec * 1000000000 + ns.toNat) = epochDate.after (sec / 86400) := by
    rw [dateAt, hdays]
  obtain ⟨hlow, hhigh, hmonth, hpos, hday⟩ :=
    dateAt_mem (n := sec * 1000000000 + ns.toNat) (by omega)
  unfold fromEpochSec gmtimeR
  constructor
  · rw [hdate] at hlow hhigh hmonth hpos hday ⊢
    generalize epochDate.after (sec / 86400) = d at *
    dsimp only
    have hyear : (1900 + UInt32.ofNat (d.year - 1900)).toNat = d.year := by
      simp only [UInt32.toNat_add, UInt32.toNat_ofNat', UInt32.reduceToNat]
      omega
    have hmon : (UInt32.ofNat (d.month - 1) + 1).toNat = d.month := by
      simp only [UInt32.toNat_add, UInt32.toNat_ofNat', UInt32.reduceToNat]
      omega
    have hmday : (UInt32.ofNat d.day).toNat = d.day := toNat_uint32 (by omega)
    refine (date_ofFields (by omega) (by omega) (by omega)).trans ?_
    rw [hyear, hmon, hmday, Date.number]
  · clear hlow hhigh hmonth hpos hday hdate
    dsimp only
    have hhour : (UInt32.ofNat (sec % 86400 / 3600)).toNat = sec % 86400 / 3600 :=
      toNat_uint32 (by omega)
    have hmin : (UInt32.ofNat (sec % 3600 / 60)).toNat = sec % 3600 / 60 :=
      toNat_uint32 (by omega)
    have htmsec : (UInt32.ofNat (sec % 60)).toNat = sec % 60 :=
      toNat_uint32 (by omega)
    refine (ns_ofFields (by omega) (by omega) (by omega) hns).trans ?_
    unfold dayNs
    omega

/-- **`from_epoch`.** -/
theorem fromEpoch_isAt (ns : UInt64) : (fromEpoch ns).IsAt ns.toNat := by
  have hlt := ns.toNat_lt
  have hdiv : (ns / 1000000000).toNat = ns.toNat / 1000000000 := by
    rw [UInt64.toNat_div]
    rfl
  have hrest : (ns - ns / 1000000000 * 1000000000).toNat = ns.toNat % 1000000000 := by
    rw [UInt64.toNat_sub, UInt64.toNat_mul, hdiv]
    simp only [UInt64.reduceToNat]
    omega
  have hsec := fromEpochSec_isAt (ns / 1000000000).toNat (ns - ns / 1000000000 * 1000000000) ns
    (by omega) (by omega)
  rwa [hrest, hdiv, Nat.div_add_mod'] at hsec

section Compare

variable {t t' : Time} {m n : ℕ}

/-- **Times are compared as the nanoseconds are.** -/
theorem IsAt.lt_iff (h : t.IsAt m) (h' : t'.IsAt n) : t.lt t' = true ↔ m < n := by
  have hlt : m < n ↔ m / dayNs < n / dayNs ∨ m / dayNs = n / dayNs ∧ m % dayNs < n % dayNs := by
    unfold dayNs
    omega
  rw [hlt, ← epochDate.number_lt_iff, ← epochDate.number_inj]
  change _ ↔ (dateAt m).number < (dateAt n).number ∨ (dateAt m).number = (dateAt n).number ∧ _
  rw [← h.date, ← h'.date, ← h.ns, ← h'.ns]
  unfold lt
  simp only [UInt32.lt_iff_toNat_lt, UInt64.lt_iff_toNat_lt, gt_iff_lt]
  split_ifs <;> simp <;> omega

theorem IsAt.eq_iff (h : t.IsAt m) (h' : t'.IsAt n) : t.eq t' = true ↔ m = n := by
  have heq : m = n ↔ m / dayNs = n / dayNs ∧ m % dayNs = n % dayNs := by
    unfold dayNs
    omega
  rw [heq, ← epochDate.number_inj]
  change _ ↔ (dateAt m).number = (dateAt n).number ∧ _
  rw [← h.date, ← h'.date, ← h.ns, ← h'.ns]
  unfold eq
  simp only [Bool.and_eq_true, beq_iff_eq, ← UInt32.toNat_inj, ← UInt64.toNat_inj,
    eq_comm (a := t'.date.toNat), eq_comm (a := t'.ns.toNat)]

theorem IsAt.le_iff (h : t.IsAt m) (h' : t'.IsAt n) : t.le t' = true ↔ m ≤ n := by
  rw [le, Bool.or_eq_true, h.eq_iff h', h.lt_iff h']
  omega

end Compare

/-! ### Adding to a time -/

/-- The date that `break_up` finds. -/
theorem IsAt.breakUp_date {t : Time} {n : ℕ} (h : t.IsAt n) (hn : n < 2 ^ 65) :
    t.breakUp.y.toNat = (dateAt n).year ∧ t.breakUp.mon.toNat = (dateAt n).month ∧
      t.breakUp.d.toNat = (dateAt n).day := by
  obtain ⟨hlow, hhigh, hmonth, hpos, hday⟩ := dateAt_mem hn
  have hdate := h.date
  unfold Date.number at hdate
  generalize dateAt n = d at *
  have hy : (t.date / 10000).toNat = d.year := by
    simp only [UInt32.toNat_div, UInt32.reduceToNat]
    omega
  have hrest : (t.date - t.date / 10000 * 10000).toNat = d.month * 100 + d.day := by
    simp only [UInt32.toNat_sub, UInt32.toNat_mul, hy, UInt32.reduceToNat]
    omega
  have hmon : ((t.date - t.date / 10000 * 10000) / 100).toNat = d.month := by
    simp only [UInt32.toNat_div, hrest, UInt32.reduceToNat]
    omega
  refine ⟨hy, hmon, ?_⟩
  unfold breakUp
  dsimp only
  simp only [UInt32.toNat_sub, UInt32.toNat_mul, hrest, hmon, UInt32.reduceToNat]
  omega

theorem toNat_div_billion (x : UInt64) :
    (x / 1000 / 1000 / 1000).toNat = x.toNat / 1000000000 := by
  simp only [UInt64.toNat_div, UInt64.reduceToNat]
  omega

theorem toNat_mul_billion {x : UInt64} (h : x.toNat < 86400) :
    (x * 1000 * 1000 * 1000).toNat = x.toNat * 1000000000 := by
  simp only [UInt64.toNat_mul, UInt64.reduceToNat]
  omega

/-- The time of the day that `break_up` finds. -/
theorem IsAt.breakUp_time {t : Time} {n : ℕ} (h : t.IsAt n) :
    t.breakUp.h.toNat = n % dayNs / 3600000000000 ∧
      t.breakUp.m.toNat = n % dayNs / 60000000000 % 60 ∧
      t.breakUp.s.toNat = n % dayNs / 1000000000 % 60 ∧
      t.breakUp.ns.toNat = n % dayNs % 1000000000 := by
  have hns := h.ns
  have hlt : n % dayNs < 86400000000000 := Nat.mod_lt _ (by decide)
  clear h
  unfold breakUp
  generalize n % dayNs = r at *
  dsimp only
  have hh : (t.ns / 3600 / 1000 / 1000 / 1000).toNat = r / 3600000000000 := by
    rw [toNat_div_billion]
    simp only [UInt64.toNat_div, UInt64.reduceToNat, hns]
    omega
  have hh32 : (t.ns / 3600 / 1000 / 1000 / 1000).toUInt32.toNat = r / 3600000000000 := by
    rw [UInt64.toNat_toUInt32, hh]
    omega
  generalize t.ns / 3600 / 1000 / 1000 / 1000 = h2 at *
  have hhours : (h2 * 3600).toNat = r / 3600000000000 * 3600 := by
    simp only [UInt64.toNat_mul, UInt64.reduceToNat, hh]
    omega
  have hm : ((t.ns - h2 * 3600 * 1000 * 1000 * 1000) / 60 / 1000 / 1000 / 1000).toNat =
      r / 60000000000 % 60 := by
    have hprod := toNat_mul_billion (x := h2 * 3600) (by omega)
    rw [toNat_div_billion]
    simp only [UInt64.toNat_div, UInt64.toNat_sub, hprod, hhours, hns, UInt64.reduceToNat]
    omega
  generalize (t.ns - h2 * 3600 * 1000 * 1000 * 1000) / 60 / 1000 / 1000 / 1000 = m2 at *
  have hmins : (h2 * 3600 + m2 * 60).toNat = r / 60000000000 * 60 := by
    have hhour : r / 3600000000000 = r / 60000000000 / 60 := by omega
    simp only [UInt64.toNat_add, UInt64.toNat_mul, hhours, hm, UInt64.reduceToNat]
    omega
  have hs : ((t.ns - (h2 * 3600 + m2 * 60) * 1000 * 1000 * 1000) / 1000 / 1000 / 1000).toNat =
      r / 1000000000 % 60 := by
    have hprod := toNat_mul_billion (x := h2 * 3600 + m2 * 60) (by omega)
    rw [toNat_div_billion]
    simp only [UInt64.toNat_sub, hprod, hmins, hns]
    omega
  generalize (t.ns - (h2 * 3600 + m2 * 60) * 1000 * 1000 * 1000) / 1000 / 1000 / 1000 = s2 at *
  have hsecs : (h2 * 3600 + m2 * 60 + s2).toNat = r / 1000000000 := by
    rw [UInt64.toNat_add, hmins, hs]
    omega
  refine ⟨hh32, ?_, ?_, ?_⟩
  · rw [UInt64.toNat_toUInt32, hm]
    omega
  · rw [UInt64.toNat_toUInt32, hs]
    omega
  · have hprod := toNat_mul_billion (x := h2 * 3600 + m2 * 60 + s2) (by omega)
    rw [UInt64.toNat_sub, hprod, hsecs, hns]
    omega

theorem toInt_toInt32 {x : UInt32} (h : x.toNat < 2147483648) : x.toInt32.toInt = x.toNat :=
  BitVec.toInt_eq_toNat_of_lt (x := x.toBitVec) (by
    rw [UInt32.toNat_toBitVec]
    omega)

/-- The time of the day, as the numbers that are compared. -/
theorem IsAt.toInt_time {t : Time} {n : ℕ} (h : t.IsAt n) :
    t.hour.toInt = ↑(n % dayNs / 3600000000000) ∧ t.minute.toInt = ↑(n % dayNs / 60000000000 % 60) ∧
      t.second.toInt = ↑(n % dayNs / 1000000000 % 60) := by
  obtain ⟨hh, hm, hs, -⟩ := h.breakUp_time
  have hlt : n % dayNs < 86400000000000 := Nat.mod_lt _ (by decide)
  exact ⟨by rw [hour, toInt_toInt32 (by omega), hh], by rw [minute, toInt_toInt32 (by omega), hm],
    by rw [second, toInt_toInt32 (by omega), hs]⟩

theorem dateAt_add (n days : ℕ) : dateAt (n + days * dayNs) = (dateAt n).after days := by
  rw [dateAt, dateAt, Date.after_after, Nat.add_mul_div_right _ _ (by decide)]

/-- A time of the same date. -/
theorem IsAt.ofDay {t : Time} {n : ℕ} (h : t.IsAt n) (ns : UInt64) (hns : ns.toNat < dayNs) :
    (ofDay t.date ns).IsAt (n / dayNs * dayNs + ns.toNat) := by
  have hdiv : (n / dayNs * dayNs + ns.toNat) / dayNs = n / dayNs := by
    unfold dayNs at *
    omega
  have hmod : (n / dayNs * dayNs + ns.toNat) % dayNs = ns.toNat := by
    unfold dayNs at *
    omega
  exact ⟨by rw [dateAt, hdiv]; exact h.date, hmod.symm⟩

variable {boost : Boost}

/-- **`add_days`.** -/
theorem IsAt.addDays {t : Time} {n : ℕ} (h : t.IsAt n) (hboost : boost.Implements) (days : ℕ)
    (hn : n + days * dayNs < 2 ^ 65) :
    ∃ t', t.addDays boost days = some t' ∧ t'.IsAt (n + days * dayNs) := by
  obtain ⟨hy, hmon, hd⟩ := h.breakUp_date (by omega)
  obtain ⟨hh, hm, hs, hns⟩ := h.breakUp_time
  obtain ⟨hlow, hhigh, hmonth, -, hday⟩ := dateAt_mem (n := n) (by omega)
  obtain ⟨hlow', hhigh', hmonth', -, hday'⟩ := dateAt_mem hn
  have hmod : (n + days * dayNs) % dayNs = n % dayNs := Nat.add_mul_mod_self_right _ _ _
  have hlt : n % dayNs < 86400000000000 := Nat.mod_lt _ (by decide)
  have hresult := hboost (dateAt n) days (by omega)
  rw [dateAt_add] at hlow' hhigh' hmonth' hday'
  unfold Time.addDays
  simp only [UInt32.toNat_toUInt16, hy, hmon, hd]
  rw [Nat.mod_eq_of_lt (by omega), Nat.mod_eq_of_lt (by omega), Nat.mod_eq_of_lt (by omega),
    hresult (by omega)]
  refine ⟨_, rfl, ?_, ?_⟩ <;> dsimp only
  · rw [dateAt_add]
    generalize (dateAt n).after days = d' at *
    have hy32 := toNat_uint32 (n := d'.year) (by omega)
    have hmon32 := toNat_uint32 (n := d'.month) (by omega)
    have hd32 := toNat_uint32 (n := d'.day) (by omega)
    refine (date_ofFields (by omega) (by omega) (by omega)).trans ?_
    rw [hy32, hmon32, hd32, Date.number]
  · rw [hmod]
    refine (ns_ofFields (by omega) (by omega) (by omega) (by omega)).trans ?_
    omega

theorem toNat_toUInt64 {x : Int64} (h : 0 ≤ x.toInt) : x.toUInt64.toNat = x.toInt.toNat :=
  Int64.toNat_toUInt64_of_le (Int64.le_iff_toInt_le.mpr h)

/-- **`operator+`**: from the beginning of the millisecond. -/
theorem IsAt.add {t : Time} {n : ℕ} (h : t.IsAt n) (hn : n < 2 ^ 64 + 2 ^ 62)
    (hboost : boost.Implements) (ms : Int32) (hms : 0 ≤ ms.toInt) :
    ∃ t', t.add boost ms = some t' ∧
      t'.IsAt (n / 1000000 * 1000000 + ms.toInt.toNat * 1000000) := by
  have hle := ms.toInt_lt
  have hlt : n % dayNs < 86400000000000 := Nat.mod_lt _ (by decide)
  have hdays : hours24Ms.toNat = 86400000 := rfl
  have hnms : (t.ns / 1000 / 1000 + ms.toInt64.toUInt64).toNat =
      n % dayNs / 1000000 + ms.toInt.toNat := by
    have hdelay := toNat_toUInt64 (x := ms.toInt64) (by rwa [Int32.toInt_toInt64])
    rw [Int32.toInt_toInt64] at hdelay
    simp only [UInt64.toNat_add, UInt64.toNat_div, UInt64.reduceToNat, hdelay, h.ns]
    omega
  unfold Time.add
  dsimp only
  generalize t.ns / 1000 / 1000 + ms.toInt64.toUInt64 = nms at *
  have hquot : (nms / hours24Ms).toUInt32.toNat = nms.toNat / 86400000 := by
    rw [UInt64.toNat_toUInt32, UInt64.toNat_div, hdays]
    omega
  have hrest : (nms % hours24Ms * 1000000).toNat = nms.toNat % 86400000 * 1000000 := by
    simp only [UInt64.toNat_mul, UInt64.toNat_mod, UInt64.reduceToNat, hdays]
    omega
  have hsame := h.ofDay (nms % hours24Ms * 1000000) (by
    rw [hrest, dayNs]
    omega)
  have hsum : n / dayNs * dayNs + (nms % hours24Ms * 1000000).toNat +
      nms.toNat / 86400000 * dayNs = n / 1000000 * 1000000 + ms.toInt.toNat * 1000000 := by
    rw [hrest, hnms]
    unfold dayNs at *
    omega
  by_cases hzero : (nms / hours24Ms).toUInt32 = 0
  · rw [if_neg (not_not.mpr hzero)]
    refine ⟨_, rfl, ?_⟩
    have hnone : nms.toNat / 86400000 = 0 := by rw [← hquot, hzero]; rfl
    rw [hnone, Nat.zero_mul, Nat.add_zero] at hsum
    rw [← hsum]
    exact hsame
  · rw [if_pos hzero, toInt_toInt32 (by omega), hquot, ← hsum]
    exact hsame.addDays hboost _ (by
      rw [hsum]
      omega)

end Time

end KasparHft.Chutil
